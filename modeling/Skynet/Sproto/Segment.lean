import Mathlib.Data.Nat.Bitwise
import Skynet.Sproto.Pack

/-!
# Skynet.Sproto.Segment

The packed format: a stream is a sequence of segments, each a group of 8 bytes with its zeros left
out or a run of 1 to 256 groups kept as they are.

* `unpack_segments` : `sproto_unpack` turns the packed segments into their raw bytes.
-/

namespace Skynet
namespace Sproto

inductive Segment where
  | sparse (bs : Bytes)
  | run (bs : Bytes)

namespace Segment

/-- The header byte of a group: bit `i + j` is set when byte `j` is not 0. -/
def header : Nat → Bytes → Nat
  | _, [] => 0
  | i, b :: bs => (if b ≠ 0 then 1 <<< i else 0) ||| header (i + 1) bs

def raw : Segment → Bytes
  | sparse bs => bs
  | run bs => bs

def packed : Segment → Bytes
  | sparse bs => UInt8.ofNat (header 0 bs) :: bs.filter (· ≠ 0)
  | run bs => 0xff :: UInt8.ofNat (bs.length / 8 - 1) :: bs

/-- What the packed form can hold: a group with a zero byte, or up to 256 groups. -/
def Ok : Segment → Prop
  | sparse bs => bs.length = 8 ∧ 0 ∈ bs
  | run bs => ∃ n, n < 256 ∧ bs.length = 8 * (n + 1)

theorem header_testBit (bs : Bytes) (i j : Nat) :
    (header i bs).testBit j = true ↔ i ≤ j ∧ bs.getD (j - i) 0 ≠ 0 := by
  induction bs generalizing i with
  | nil => simp [header]
  | cons b bs ih =>
    simp only [header, Nat.testBit_or, Bool.or_eq_true, ih]
    have hbit : (if b ≠ 0 then 1 <<< i else 0).testBit j = true ↔ i = j ∧ b ≠ 0 := by
      split
      · rename_i hb
        simp [Nat.one_shiftLeft, Nat.testBit_two_pow, hb]
      · rename_i hb
        simp [hb]
    rw [hbit]
    rcases Nat.lt_trichotomy i j with h | h | h
    · have hj : j - i = j - (i + 1) + 1 := by omega
      rw [hj, List.getD_cons_succ]
      constructor
      · rintro (⟨rfl, -⟩ | ⟨-, h'⟩)
        · omega
        · exact ⟨by omega, h'⟩
      · rintro ⟨-, h'⟩
        exact .inr ⟨by omega, h'⟩
    · subst h
      simp
    · constructor
      · rintro (⟨rfl, -⟩ | ⟨h', -⟩) <;> omega
      · rintro ⟨h', -⟩
        omega

theorem header_lt (bs : Bytes) (i : Nat) : header i bs < 2 ^ (i + bs.length) := by
  apply Nat.lt_pow_two_of_testBit
  intro j hj
  rw [Bool.eq_false_iff]
  intro hbit
  obtain ⟨-, hne⟩ := (header_testBit bs i j).mp hbit
  exact hne (List.getD_eq_default _ _ (by omega))

/-- A group with a zero byte never has the header that announces a run. -/
theorem header_ne_ff {bs : Bytes} (hlen : bs.length = 8) (hz : 0 ∈ bs) : header 0 bs ≠ 255 := by
  intro h
  obtain ⟨j, hj, hb⟩ := List.getElem_of_mem hz
  have hbit : (header 0 bs).testBit j = true := by
    have h255 : ∀ k, k < 8 → Nat.testBit 255 k = true := by decide
    rw [h, h255 j (by omega)]
  obtain ⟨-, hne⟩ := (header_testBit bs 0 j).mp hbit
  apply hne
  rw [Nat.sub_zero, List.getD_eq_getElem _ _ hj, hb]

end Segment

/-- From `v`, `raw` is written and `rest` is what is left of the source. -/
structure Unpacks (v : UnpackVars) (raw rest : Bytes) (w : UnpackVars) : Prop where
  src : w.src = rest
  srcsz : w.srcsz = rest.length
  size : w.size = v.size + raw.length
  out : (raw.length : Int) ≤ v.bufsz → w.mem = Mem.blit v.mem v.buffer raw ∧
    w.buffer = v.buffer + raw.length ∧ w.bufsz = v.bufsz - raw.length

namespace Unpacks

theorem trans {v w u : UnpackVars} {xs ys rest rest' : Bytes} (h₁ : Unpacks v xs rest w)
    (h₂ : Unpacks w ys rest' u) : Unpacks v (xs ++ ys) rest' u where
  src := h₂.src
  srcsz := h₂.srcsz
  size := by rw [h₂.size, h₁.size, List.length_append, Nat.add_assoc]
  out := by
    intro hfit
    rw [List.length_append] at hfit
    push_cast at hfit
    obtain ⟨hm, hb, hs⟩ := h₁.out (by omega)
    obtain ⟨hm', hb', hs'⟩ := h₂.out (by omega)
    refine ⟨?_, ?_, ?_⟩
    · rw [hm', hm, hb, Mem.blit_append]
    · rw [hb', hb, List.length_append, Nat.add_assoc]
    · rw [hs', hs, List.length_append]; push_cast; omega

end Unpacks

theorem shiftRight_and_one (h i : Nat) : (h >>> i) &&& 1 = 1 ↔ h.testBit i = true := by
  rw [Nat.testBit, Nat.and_comm, Nat.one_and_eq_mod_two]
  simp

/-- One byte put, from a source that holds it. -/
theorem unpackPut_ok (v : UnpackVars) (b : UInt8) : ∃ w, unpackPut v (.ok b) = .ok w ∧
    w.src = v.src ∧ w.srcsz = v.srcsz ∧ w.size = v.size ∧
    (1 ≤ v.bufsz → w.mem = Mem.blit v.mem v.buffer [b] ∧ w.buffer = v.buffer + 1 ∧ w.bufsz = v.bufsz - 1) := by
  unfold unpackPut
  split
  · exact ⟨_, rfl, rfl, rfl, rfl, fun _ => ⟨rfl, rfl, rfl⟩⟩
  · exact ⟨_, rfl, rfl, rfl, rfl, fun h => by omega⟩

/-- The inner loop rebuilds the bytes whose non-zero ones the source holds. -/
theorem unpackSeg_spec (header : Nat) (bs rest : Bytes) (i : Nat) (v : UnpackVars)
    (hbits : ∀ j, (h : j < bs.length) → (header.testBit (i + j) = true ↔ bs.get ⟨j, h⟩ ≠ 0))
    (hsrc : v.src = bs.filter (· ≠ 0) ++ rest) (hsz : v.srcsz = v.src.length) :
    ∃ w, unpackSeg header i bs.length v = .ok w ∧ Unpacks v bs rest w := by
  induction bs generalizing i v with
  | nil =>
    refine ⟨v, rfl, hsrc, ?_, rfl, ?_⟩
    · rw [hsz, hsrc]; rfl
    · intro _; exact ⟨(Mem.blit_nil ..).symm, rfl, by simp⟩
  | cons b bs ih =>
    have hbit : (header >>> i) &&& 1 = 1 ↔ b ≠ 0 := by
      rw [shiftRight_and_one]; exact hbits 0 (by simp)
    have htail : ∀ j, (h : j < bs.length) →
        (header.testBit (i + 1 + j) = true ↔ bs.get ⟨j, h⟩ ≠ 0) := by
      intro j h
      have := hbits (j + 1) (by simp; omega)
      rwa [Nat.add_right_comm i 1 j]
    have hone : ∀ (src' : Bytes) (w : UnpackVars), w.size = v.size →
        (1 ≤ v.bufsz → w.mem = Mem.blit v.mem v.buffer [b] ∧ w.buffer = v.buffer + 1 ∧ w.bufsz = v.bufsz - 1) →
        Unpacks v [b] src' { w with src := src', srcsz := src'.length, size := w.size + 1 } := by
      intro src' w hsize hout
      exact ⟨rfl, rfl, by simp [hsize], by simpa using hout⟩
    obtain ⟨w, hw, hwsrc, hwsz, hwsize, hwout⟩ := unpackPut_ok v b
    simp only [List.length_cons, unpackSeg]
    by_cases hb : b = 0
    · subst hb
      rw [if_neg (by rw [hbit]; simp), hw]
      have hsrc' : v.src = bs.filter (· ≠ 0) ++ rest := by simpa using hsrc
      have h1 := hone v.src w hwsize hwout
      rw [← hsz, ← hwsz, ← hwsrc] at h1
      obtain ⟨u, hu, hU⟩ := ih (i + 1) { w with size := w.size + 1 } htail
        (by simpa [hwsrc] using hsrc') (by simp [hwsrc, hwsz, hsz])
      exact ⟨u, hu, h1.trans hU⟩
    · rw [if_pos (hbit.mpr hb), if_neg (by rw [hsz]; omega)]
      have hsrc' : v.src = b :: (bs.filter (· ≠ 0) ++ rest) := by simpa [hb] using hsrc
      have hread : readByte v.src = .ok b := by rw [hsrc']; rfl
      rw [hread, hw]
      have hdrop : v.src.drop 1 = bs.filter (· ≠ 0) ++ rest := by rw [hsrc']; rfl
      have hsz' : v.srcsz - 1 = (v.src.drop 1).length := by rw [hsz, hsrc']; simp
      have h1 := hone (v.src.drop 1) w hwsize hwout
      rw [← hsz', ← hwsz, ← hwsrc] at h1
      obtain ⟨u, hu, hU⟩ := ih (i + 1) { w with src := w.src.drop 1, srcsz := w.srcsz - 1, size := w.size + 1 }
        htail (by simp only [hwsrc, hdrop]) (by simp only [hwsrc, hwsz, hsz'])
      exact ⟨u, hu, h1.trans hU⟩

theorem unpackCopy_ok {bs rest : Bytes} {v : UnpackVars} (hsrc : v.src = bs ++ rest) :
    ∃ m, unpackCopy v bs.length = .ok m ∧
      ((bs.length : Int) ≤ v.bufsz → m = Mem.blit v.mem v.buffer bs) := by
  have hbytes : readBytes v.src bs.length = some bs := by
    rw [hsrc, readBytes, if_pos (by simp), List.take_left]
  simp only [unpackCopy, hbytes]
  split
  · exact ⟨_, rfl, fun _ => rfl⟩
  · rename_i hfit
    exact ⟨_, rfl, fun h => absurd h hfit⟩

/-- The branch `header == 0xff` copies the announced groups. -/
theorem unpackFf_spec {n : Nat} {bs rest : Bytes} {v : UnpackVars} (hn : n < 256)
    (hlen : bs.length = 8 * (n + 1)) (hsrc : v.src = UInt8.ofNat n :: bs ++ rest)
    (hsz : v.srcsz = v.src.length) : ∃ w, unpackFf v = .ok w ∧ Unpacks v bs rest w := by
  have hc : (UInt8.ofNat n).toNat = n := by rw [UInt8.toNat_ofNat']; omega
  have hread : readByte v.src = .ok (UInt8.ofNat n) := by rw [hsrc]; rfl
  have hlen' : bs.length = (n + 1) * 8 := by omega
  have hsz' : v.srcsz = bs.length + 1 + rest.length := by
    rw [hsz, hsrc]; simp only [List.cons_append, List.length_cons, List.length_append]; push_cast; omega
  have hdrop : v.src.drop 1 = bs ++ rest := by rw [hsrc]; rfl
  have hlt : ¬v.srcsz < (bs.length : Int) + 1 := by omega
  obtain ⟨m, hm, hout⟩ := unpackCopy_ok
    (v := { v with srcsz := v.srcsz - (bs.length + 1), src := bs ++ rest }) (show _ = bs ++ rest from rfl)
  simp only [unpackFf, hread, bind, Except.bind, hc, ← hlen', hdrop, if_neg hlt, hm, List.drop_left]
  rw [if_neg (by omega)]
  refine ⟨_, rfl, rfl, ?_, rfl, fun h => ⟨hout h, rfl, rfl⟩⟩
  simp only [hsz']
  omega

/-- One round of `sproto_unpack` takes one segment. -/
theorem unpackLoop_segment (fuel : Nat) {g : Segment} (hg : g.Ok) {rest : Bytes} {v : UnpackVars}
    (hsrc : v.src = g.packed ++ rest) (hsz : v.srcsz = v.src.length) :
    ∃ w, unpackLoop (fuel + 1) v = unpackLoop fuel w ∧ Unpacks v g.raw rest w := by
  have hround : ∀ (h : UInt8) (tl : Bytes), v.src = h :: tl →
      unpackLoop (fuel + 1) v =
        (if h = 0xff then unpackFf { v with srcsz := v.srcsz - 1, src := tl }
          else unpackSeg h.toNat 0 8 { v with srcsz := v.srcsz - 1, src := tl }) >>= unpackLoop fuel := by
    intro h tl hh
    simp only [unpackLoop]
    rw [if_pos (by rw [hsz, hh]; simp), unpackRound, hh]
    rfl
  have hback : ∀ {tl : Bytes} {w : UnpackVars}, Unpacks { v with srcsz := v.srcsz - 1, src := tl } g.raw rest w →
      Unpacks v g.raw rest w := fun h => ⟨h.src, h.srcsz, h.size, h.out⟩
  cases g with
  | sparse bs =>
    obtain ⟨hlen, hz⟩ := hg
    have hlt : Segment.header 0 bs < 256 := by simpa [hlen] using Segment.header_lt bs 0
    have htoNat : (UInt8.ofNat (Segment.header 0 bs)).toNat = Segment.header 0 bs := by
      rw [UInt8.toNat_ofNat']; omega
    have hne : UInt8.ofNat (Segment.header 0 bs) ≠ 0xff := by
      intro h
      have := congrArg UInt8.toNat h
      rw [htoNat] at this
      exact Segment.header_ne_ff hlen hz this
    rw [hround _ (bs.filter (· ≠ 0) ++ rest) hsrc, if_neg hne, htoNat, ← hlen]
    obtain ⟨w, hw, hW⟩ := unpackSeg_spec (Segment.header 0 bs) bs rest 0
      { v with srcsz := v.srcsz - 1, src := bs.filter (· ≠ 0) ++ rest }
      (by
        intro j h
        rw [Segment.header_testBit, Nat.zero_add, Nat.sub_zero, List.getD_eq_getElem _ _ h]
        simp)
      rfl
      (by simp only [hsz, hsrc, Segment.packed, List.cons_append, List.length_cons]; push_cast; omega)
    exact ⟨w, by rw [hw]; rfl, hback hW⟩
  | run bs =>
    obtain ⟨n, hn, hlen⟩ := hg
    have hcount : bs.length / 8 - 1 = n := by omega
    rw [hround 0xff (UInt8.ofNat n :: bs ++ rest) (by rw [hsrc, Segment.packed, hcount]; rfl), if_pos rfl]
    obtain ⟨w, hw, hW⟩ := unpackFf_spec (v := { v with srcsz := v.srcsz - 1, src := UInt8.ofNat n :: bs ++ rest })
      hn hlen rfl
      (by simp only [hsz, hsrc, Segment.packed, List.cons_append, List.length_cons]; push_cast; omega)
    exact ⟨w, by rw [hw]; rfl, hback hW⟩

/-- `sproto_unpack` takes a sequence of segments, one a round. -/
theorem unpackLoop_segments {fuel : Nat} {gs : List Segment} (hg : ∀ g ∈ gs, g.Ok)
    (hfuel : gs.length ≤ fuel) {v : UnpackVars} (hsrc : v.src = gs.flatMap Segment.packed)
    (hsz : v.srcsz = v.src.length) :
    ∃ w, unpackLoop fuel v = .ok w ∧ Unpacks v (gs.flatMap Segment.raw) [] w := by
  induction gs generalizing fuel v with
  | nil =>
    rw [List.flatMap_nil] at hsrc
    have h0 : v.srcsz = 0 := by rw [hsz, hsrc]; rfl
    refine ⟨v, ?_, hsrc, h0, rfl, fun _ => ⟨(Mem.blit_nil ..).symm, rfl, by simp⟩⟩
    cases fuel with
    | zero => rfl
    | succ fuel => simp only [unpackLoop]; rw [if_neg (by omega)]
  | cons g gs ih =>
    cases fuel with
    | zero => simp at hfuel
    | succ fuel =>
      rw [List.flatMap_cons] at hsrc
      obtain ⟨w, hw, hW⟩ := unpackLoop_segment fuel (hg g (List.mem_cons_self ..)) hsrc hsz
      obtain ⟨u, hu, hU⟩ := ih (fun g' h' => hg g' (List.mem_cons_of_mem _ h'))
        (by simpa using hfuel) hW.src (by rw [hW.srcsz, hW.src])
      exact ⟨u, by rw [hw, hu], by rw [List.flatMap_cons]; exact hW.trans hU⟩

theorem Segment.packed_length_pos (g : Segment) : 0 < g.packed.length := by
  cases g <;> simp [Segment.packed]

theorem segments_length_le (gs : List Segment) : gs.length ≤ (gs.flatMap Segment.packed).length := by
  induction gs with
  | nil => simp
  | cons g gs ih =>
    have := g.packed_length_pos
    simp only [List.flatMap_cons, List.length_cons, List.length_append]
    omega

/-- Unpacking packed segments: the size is that of the raw bytes whatever the output size, and an
output that holds them gets them. -/
theorem unpack_segments {gs : List Segment} (hg : ∀ g ∈ gs, g.Ok) (mem : Nat → UInt8) (bufsz : Int) :
    ∃ m, sprotoUnpack (gs.flatMap Segment.packed) mem bufsz = .ok ((gs.flatMap Segment.raw).length, m) ∧
      (((gs.flatMap Segment.raw).length : Int) ≤ bufsz →
        Mem.slice m 0 (gs.flatMap Segment.raw).length = gs.flatMap Segment.raw) := by
  obtain ⟨w, hw, hW⟩ := unpackLoop_segments hg (segments_length_le gs)
    (v := { src := gs.flatMap Segment.packed, srcsz := (gs.flatMap Segment.packed).length, buffer := 0,
            bufsz := bufsz, size := 0, mem := mem }) rfl rfl
  refine ⟨w.mem, ?_, ?_⟩
  · have hsize : w.size = (gs.flatMap Segment.raw).length := by rw [hW.size, Nat.zero_add]
    rw [sprotoUnpack, hw, ← hsize]; rfl
  · intro hfit
    rw [(hW.out hfit).1, Mem.slice_blit]

end Sproto
end Skynet
