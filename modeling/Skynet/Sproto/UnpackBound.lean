import Mathlib.Data.Nat.SuccPred
import Skynet.Sproto.PackSpec

/-!
# Skynet.Sproto.UnpackBound

`sproto_unpack` on any bytes: what it reads and writes, and which input it refuses.

* `sprotoUnpackOut` : the function with the output as it is left, also where the stream is refused.
* `segments` : the whole segments at the beginning of the input, and what is left behind them.
* `unpack_checked_iff` : which truncated inputs are handled as they should be. The checks before the reads of a byte
  count it as one that is there.
-/

namespace Skynet
namespace Sproto

/-! ### The output of a refused stream -/

/-- The inner loop, to where it stops. -/
def unpackSegOut (header : Nat) : Nat → Nat → UnpackVars → UnpackVars × Option UnpackFail
  | _, 0, v => (v, none)
  | i, k + 1, v =>
    if (header >>> i) &&& 1 = 1 then
      if v.srcsz < 0 then (v, some .invalid)
      else
        match unpackPut v (readByte v.src) with
        | .error e => (v, some e)
        | .ok w => unpackSegOut header (i + 1) k { w with src := w.src.drop 1, srcsz := w.srcsz - 1, size := w.size + 1 }
    else
      match unpackPut v (.ok 0) with
      | .error e => (v, some e)
      | .ok w => unpackSegOut header (i + 1) k { w with size := w.size + 1 }

def unpackRoundOut (v : UnpackVars) : UnpackVars × Option UnpackFail :=
  match readByte v.src with
  | .error e => (v, some e)
  | .ok header =>
    let v := { v with srcsz := v.srcsz - 1, src := v.src.drop 1 }
    if header = 0xff then
      match unpackFf v with
      | .error e => (v, some e)
      | .ok w => (w, none)
    else unpackSegOut header.toNat 0 8 v

def unpackLoopOut : Nat → UnpackVars → UnpackVars × Option UnpackFail
  | 0, v => (v, none)
  | fuel + 1, v =>
    if 0 < v.srcsz then
      match unpackRoundOut v with
      | (w, some e) => (w, some e)
      | (w, none) => unpackLoopOut fuel w
    else (v, none)

/-- `sproto_unpack(p, |p|, mem, bufsz)`: its return, and the output. -/
def sprotoUnpackOut (p : Bytes) (mem : Nat → UInt8) (bufsz : Int) : Except UnpackFail Nat × (Nat → UInt8) :=
  match unpackLoopOut p.length { src := p, srcsz := p.length, buffer := 0, bufsz := bufsz, size := 0, mem := mem } with
  | (v, some e) => (.error e, v.mem)
  | (v, none) => (.ok v.size, v.mem)

/-- The end of a part of the loop, without the output of a refused stream. -/
def ending : UnpackVars × Option UnpackFail → Except UnpackFail UnpackVars
  | (_, some e) => .error e
  | (v, none) => .ok v

theorem ending_seg (header i k : Nat) (v : UnpackVars) :
    ending (unpackSegOut header i k v) = unpackSeg header i k v := by
  induction k generalizing i v with
  | zero => rfl
  | succ k ih =>
    simp only [unpackSegOut, unpackSeg]
    split
    · split
      · rfl
      · cases unpackPut v (readByte v.src) with
        | error e => rfl
        | ok w => exact ih _ _
    · cases unpackPut v (.ok 0) with
      | error e => rfl
      | ok w => exact ih _ _

theorem ending_loop (fuel : Nat) (v : UnpackVars) : ending (unpackLoopOut fuel v) = unpackLoop fuel v := by
  induction fuel generalizing v with
  | zero => rfl
  | succ fuel ih =>
    have hround : ending (unpackRoundOut v) = unpackRound v := by
      simp only [unpackRoundOut, unpackRound]
      cases readByte v.src with
      | error e => rfl
      | ok header =>
        change _ = ite _ _ _
        simp only
        split
        · cases unpackFf { v with srcsz := v.srcsz - 1, src := v.src.drop 1 } <;> rfl
        · exact ending_seg ..
    simp only [unpackLoopOut, unpackLoop, ← hround]
    split
    · obtain ⟨w, e⟩ := unpackRoundOut v
      cases e with
      | some e => rfl
      | none => exact ih w
    · rfl

theorem sprotoUnpack_eq (p : Bytes) (mem : Nat → UInt8) (bufsz : Int) :
    sprotoUnpack p mem bufsz =
      (sprotoUnpackOut p mem bufsz).1.map fun size => (size, (sprotoUnpackOut p mem bufsz).2) := by
  simp only [sprotoUnpack, sprotoUnpackOut, ← ending_loop]
  obtain ⟨w, e⟩ := unpackLoopOut p.length _
  cases e <;> rfl

/-! ### The segments of the input -/

/-- The bits of a header that announce a byte. -/
def bits (header i k : Nat) : List Nat := (List.range' i k).filter header.testBit

/-- The bytes that the whole segments at the beginning give, and what is left: nothing, or a segment that is not
whole. -/
def segments : Bytes → Nat × Bytes
  | [] => (0, [])
  | header :: p =>
    if header = 0xff then
      match p with
      | [] => (0, [header])
      | c :: p =>
        if p.length < (c.toNat + 1) * 8 then (0, header :: c :: p)
        else
          let q := segments (p.drop ((c.toNat + 1) * 8))
          (q.1 + (c.toNat + 1) * 8, q.2)
    else if p.length < (bits header.toNat 0 8).length then (0, header :: p)
    else
      let q := segments (p.drop (bits header.toNat 0 8).length)
      (q.1 + 8, q.2)
termination_by p => p.length

theorem segments_nil : segments [] = (0, []) := by rw [segments]

theorem segments_header : segments [0xff] = (0, [0xff]) := by rw [segments.eq_def]; rfl

theorem segments_run (c : UInt8) (p : Bytes) : segments (0xff :: c :: p) =
    if p.length < (c.toNat + 1) * 8 then (0, 0xff :: c :: p)
    else ((segments (p.drop ((c.toNat + 1) * 8))).1 + (c.toNat + 1) * 8, (segments (p.drop ((c.toNat + 1) * 8))).2) := by
  rw [segments.eq_def]
  rfl

theorem segments_plain {header : UInt8} (hff : header ≠ 0xff) (p : Bytes) : segments (header :: p) =
    if p.length < (bits header.toNat 0 8).length then (0, header :: p)
    else ((segments (p.drop (bits header.toNat 0 8).length)).1 + 8,
      (segments (p.drop (bits header.toNat 0 8).length)).2) := by
  rw [segments.eq_def]
  simp only [if_neg hff]

/-- The input ends in the middle of a segment. -/
def Truncated (p : Bytes) : Prop := (segments p).2 ≠ []

instance (p : Bytes) : Decidable (Truncated p) := inferInstanceAs (Decidable (_ ≠ _))

/-- What `sproto_unpack` should do with an output of `bufsz` bytes. -/
structure Unpacked (p : Bytes) (mem : Nat → UInt8) (bufsz : Nat) : Prop where
  inside : (sprotoUnpackOut p mem bufsz).1 ≠ .error .beyond
  frame : ∀ j, bufsz ≤ j → (sprotoUnpackOut p mem bufsz).2 j = mem j
  refused : (sprotoUnpackOut p mem bufsz).1 = .error .invalid ↔ Truncated p
  size : ¬Truncated p → (sprotoUnpackOut p mem bufsz).1 = .ok (segments p).1

/-- A segment that is not whole, behind `size` bytes of output: a run that has its count, or at least two bytes are
missing and the output is full where the first of them would go. -/
def Harmless (bufsz size : Nat) : Bytes → Prop
  | [] => True
  | header :: p =>
    if header = 0xff then p ≠ []
    else p.length + 2 ≤ (bits header.toNat 0 8).length ∧
      ∀ q, (bits header.toNat 0 8)[p.length]? = some q → bufsz ≤ size + q

/-! ### The output -/

/-- While there is room, the next byte goes to its place. -/
structure Output (bufsz : Nat) (mem : Nat → UInt8) (v : UnpackVars) : Prop where
  place : v.size < bufsz → v.bufsz = bufsz - v.size ∧ v.buffer = v.size
  full : bufsz ≤ v.size → v.bufsz ≤ 0
  frame : ∀ j, bufsz ≤ j → v.mem j = mem j

/-- A byte is given: the source is behind it, or not. -/
theorem output_put {bufsz : Nat} {mem : Nat → UInt8} {v : UnpackVars} (h : Output bufsz mem v) (b : UInt8) :
    ∃ w, unpackPut v (.ok b) = .ok w ∧ w.src = v.src ∧ w.srcsz = v.srcsz ∧ w.size = v.size ∧
      Output bufsz mem { w with size := w.size + 1 } := by
  obtain ⟨hplace, hfull, hframe⟩ := h
  simp only [unpackPut]
  by_cases hroom : 0 < v.bufsz
  · have hlt : v.size < bufsz := by
      by_contra hle
      have := hfull (Nat.le_of_not_lt hle)
      omega
    obtain ⟨hbufsz, hbuffer⟩ := hplace hlt
    rw [if_pos hroom]
    refine ⟨_, rfl, rfl, rfl, rfl, ?_, ?_, ?_⟩
    · intro _
      exact ⟨show v.bufsz - 1 = bufsz - (v.size + 1 : Nat) by omega, show v.buffer + 1 = v.size + 1 by omega⟩
    · intro (hle : bufsz ≤ v.size + 1)
      change v.bufsz - 1 ≤ 0
      omega
    · intro j hj
      exact (Mem.blit_of_ge (by simp only [List.length_singleton]; omega)).trans (hframe j hj)
  · rw [if_neg hroom]
    refine ⟨v, rfl, rfl, rfl, rfl, ?_, ?_, hframe⟩
    · intro (hlt : v.size + 1 < bufsz)
      have := (hplace (by omega)).1
      omega
    · exact fun _ => not_lt.mp hroom

/-- A run that has its count is copied, or refused where bytes of it are missing. -/
theorem output_copy {bufsz : Nat} {mem : Nat → UInt8} {v : UnpackVars} {c : UInt8} {p : Bytes} (h : Output bufsz mem v)
    (hsrc : v.src = c :: p) (hlen : v.srcsz = v.src.length) :
    (p.length < (c.toNat + 1) * 8 ∧ unpackFf v = .error .invalid) ∨
      ((c.toNat + 1) * 8 ≤ p.length ∧ ∃ w, unpackFf v = .ok w ∧ w.src = p.drop ((c.toNat + 1) * 8) ∧
        w.srcsz = w.src.length ∧ w.size = v.size + (c.toNat + 1) * 8 ∧ Output bufsz mem w) := by
  rw [hsrc, List.length_cons] at hlen
  have hff : ∀ n, (c.toNat + 1) * 8 = n → unpackFf v = if v.srcsz < (n : Int) + 1 then .error .invalid else
      (unpackCopy { v with srcsz := v.srcsz - (n + 1), src := p } n).map fun mem =>
        { v with srcsz := v.srcsz - (n + 1), mem := mem, bufsz := v.bufsz - n, buffer := v.buffer + n,
                 src := p.drop n, size := v.size + n } := by
    rintro n rfl
    rw [unpackFf, if_neg (by omega), hsrc]
    simp only [readByte, List.drop_succ_cons, List.drop_zero]
    change ite _ _ _ = _
    congr 1
  generalize hn : (c.toNat + 1) * 8 = n
  replace hff := hff n hn
  have hpos : 0 < n := by omega
  by_cases hshort : p.length < n
  · exact .inl ⟨hshort, by rw [hff, if_pos (by omega)]⟩
  · refine .inr ⟨by omega, ?_⟩
    obtain ⟨hplace, hfull, hframe⟩ := h
    have hcopy : ∃ mem', unpackCopy { v with srcsz := v.srcsz - (n + 1), src := p } n = .ok mem' ∧
        ∀ j, bufsz ≤ j → mem' j = mem j := by
      simp only [unpackCopy, readBytes]
      split
      · rename_i hroom
        have hlt : v.size < bufsz := by
          by_contra hle
          have := hfull (Nat.le_of_not_lt hle)
          omega
        obtain ⟨hbufsz, hbuffer⟩ := hplace hlt
        rw [if_pos (by omega)]
        exact ⟨_, rfl, fun j hj => (Mem.blit_of_ge (by rw [List.length_take]; omega)).trans (hframe j hj)⟩
      · exact ⟨_, rfl, hframe⟩
    obtain ⟨mem', hmem', hframe'⟩ := hcopy
    rw [hff, if_neg (by omega), hmem']
    refine ⟨_, rfl, rfl, ?_, rfl, ?_, ?_, hframe'⟩
    · change v.srcsz - (n + 1) = ((p.drop n).length : Int)
      rw [List.length_drop]
      omega
    · intro (hlt : v.size + n < bufsz)
      obtain ⟨hbufsz, hbuffer⟩ := hplace (by omega)
      exact ⟨show v.bufsz - n = bufsz - (v.size + n : Nat) by omega, show v.buffer + n = v.size + n by omega⟩
    · intro (hle : bufsz ≤ v.size + n)
      change v.bufsz - n ≤ 0
      by_cases hlt : v.size < bufsz
      · have := (hplace hlt).1
        omega
      · have := hfull (Nat.le_of_not_lt hlt)
        omega

/-! ### A plain segment -/

theorem bits_succ (header i k : Nat) :
    bits header i (k + 1) = if header.testBit i then i :: bits header (i + 1) k else bits header (i + 1) k := by
  rw [bits, List.range'_succ, List.filter_cons]
  rfl

/-- Every byte that is announced is there. -/
theorem unpackSegOut_whole {bufsz : Nat} {mem : Nat → UInt8} (header i k : Nat) (v : UnpackVars)
    (h : Output bufsz mem v) (hlen : v.srcsz = v.src.length) (hk : (bits header i k).length ≤ v.src.length) :
    ∃ w, unpackSegOut header i k v = (w, none) ∧ w.src = v.src.drop (bits header i k).length ∧
      w.srcsz = w.src.length ∧ w.size = v.size + k ∧ Output bufsz mem w := by
  induction k generalizing i v with
  | zero => exact ⟨v, rfl, rfl, hlen, rfl, h⟩
  | succ k ih =>
    simp only [unpackSegOut, shiftRight_and_one]
    rw [bits_succ] at hk ⊢
    split
    · rename_i hbit
      rw [if_pos hbit] at hk
      rw [if_neg (by omega)]
      cases hsrc : v.src with
      | nil =>
        rw [hsrc] at hk
        exact absurd hk (by simp)
      | cons b rest =>
        obtain ⟨w, hput, hwsrc, hwsrcsz, hwsize, hout⟩ := output_put h b
        simp only [readByte, hput]
        rw [hsrc] at hlen hk
        obtain ⟨u, hu, hsrc', hsrcsz, hsize, hout'⟩ := ih (i + 1)
          { w with src := w.src.drop 1, srcsz := w.srcsz - 1, size := w.size + 1 } { hout with }
          (by simp only [hwsrc, hsrc, hwsrcsz, hlen, List.length_cons, List.drop_succ_cons, List.drop_zero]; omega)
          (by simpa [hwsrc, hsrc] using hk)
        refine ⟨u, hu, ?_, hsrcsz, ?_, hout'⟩
        · simpa [hwsrc, hsrc] using hsrc'
        · simp only [hwsize] at hsize
          omega
    · rename_i hbit
      rw [if_neg hbit] at hk
      obtain ⟨w, hput, hwsrc, hwsrcsz, hwsize, hout⟩ := output_put h 0
      simp only [hput]
      obtain ⟨u, hu, hsrc', hsrcsz, hsize, hout'⟩ := ih (i + 1) { w with size := w.size + 1 } hout
        (by simp only [hwsrc, hwsrcsz, hlen]) (by simpa [hwsrc] using hk)
      refine ⟨u, hu, ?_, hsrcsz, ?_, hout'⟩
      · rw [hsrc']
        simp only [hwsrc]
      · simp only [hwsize] at hsize
        omega

/-- One byte too many was counted as read: another that is announced is refused. -/
theorem unpackSegOut_short {bufsz : Nat} {mem : Nat → UInt8} (header i k : Nat) (v : UnpackVars)
    (h : Output bufsz mem v) (hlen : v.srcsz = -1) :
    ∃ w, unpackSegOut header i k v = (w, if bits header i k = [] then none else some .invalid) ∧
      Output bufsz mem w ∧ (bits header i k = [] → w.srcsz = -1 ∧ w.size = v.size + k) := by
  induction k generalizing i v with
  | zero => exact ⟨v, rfl, h, fun _ => ⟨hlen, rfl⟩⟩
  | succ k ih =>
    simp only [unpackSegOut, shiftRight_and_one]
    rw [bits_succ]
    split
    · rename_i hbit
      rw [if_pos (by omega)]
      exact ⟨v, rfl, h, nofun⟩
    · rename_i hbit
      obtain ⟨w, hput, hwsrc, hwsrcsz, hwsize, hout⟩ := output_put h 0
      simp only [hput]
      obtain ⟨u, hu, hout', hend⟩ := ih (i + 1) { w with size := w.size + 1 } hout (hwsrcsz.trans hlen)
      refine ⟨u, hu, hout', fun hnil => ?_⟩
      obtain ⟨hsrcsz, hsize⟩ := hend hnil
      simp only [hwsize] at hsize
      exact ⟨hsrcsz, by omega⟩

/-- The bit `q` announces the first byte that is missing. -/
theorem unpackSegOut_cut {bufsz : Nat} {mem : Nat → UInt8} (header i k : Nat) (v : UnpackVars) (q : Nat)
    (h : Output bufsz mem v) (hlen : v.srcsz = v.src.length) (hq : (bits header i k)[v.src.length]? = some q) :
    i ≤ q ∧ ∃ w e, unpackSegOut header i k v = (w, e) ∧ Output bufsz mem w ∧
      (v.size + q < bufsz + i → e = some .beyond) ∧
      (bufsz + i ≤ v.size + q → (bits header i k).length = v.src.length + 1 →
        e = none ∧ w.srcsz = -1 ∧ w.size = v.size + k) ∧
      (bufsz + i ≤ v.size + q → v.src.length + 2 ≤ (bits header i k).length → e = some .invalid) := by
  induction k generalizing i v with
  | zero => exact absurd hq (by simp [bits])
  | succ k ih =>
    simp only [unpackSegOut, shiftRight_and_one]
    rw [bits_succ] at hq ⊢
    split
    · rename_i hbit
      rw [if_pos hbit] at hq
      rw [if_neg (by omega)]
      cases hsrc : v.src with
      | nil =>
        -- this is the byte
        rw [hsrc, List.length_nil] at hq
        obtain rfl : i = q := Option.some.inj hq
        rw [hsrc, List.length_nil] at hlen
        by_cases hroom : v.size < bufsz
        · have hput : unpackPut v (readByte []) = .error .beyond := by
            rw [unpackPut, if_pos (by rw [(h.place hroom).1]; omega)]
            rfl
          simp only [hput]
          exact ⟨Nat.le_refl _, v, _, rfl, h, fun _ => rfl, by omega, by omega⟩
        · have hput : unpackPut v (readByte []) = .ok v := by
            rw [unpackPut, if_neg (by have := h.full (Nat.le_of_not_lt hroom); omega)]
            rfl
          simp only [hput, hsrc]
          have hout : Output bufsz mem { v with src := [], srcsz := v.srcsz - 1, size := v.size + 1 } :=
            ⟨fun (hlt : v.size + 1 < bufsz) => by omega, fun _ => h.full (Nat.le_of_not_lt hroom), h.frame⟩
          obtain ⟨w, hw, hout', hend⟩ := unpackSegOut_short header (i + 1) k _ hout (by simp only [hlen]; rfl)
          refine ⟨Nat.le_refl _, w, _, hw, hout', by omega, fun _ hone => ?_, fun _ htwo => ?_⟩
          · have hnil : bits header (i + 1) k = [] := List.length_eq_zero_iff.mp (by simpa using hone)
            obtain ⟨hsrcsz, hsize⟩ := hend hnil
            refine ⟨if_pos hnil, hsrcsz, ?_⟩
            rw [hsize]
            simp only
            omega
          · rw [if_neg]
            intro hnil
            rw [hnil] at htwo
            simp at htwo
      | cons b rest =>
        obtain ⟨w, hput, hwsrc, hwsrcsz, hwsize, hout⟩ := output_put h b
        simp only [readByte, hput]
        rw [hsrc] at hlen hq
        obtain ⟨hle, u, e, hu, hout', hbeyond, hone, htwo⟩ := ih (i + 1)
          { w with src := w.src.drop 1, srcsz := w.srcsz - 1, size := w.size + 1 } { hout with }
          (by simp only [hwsrc, hsrc, hwsrcsz, hlen, List.length_cons, List.drop_succ_cons, List.drop_zero]; omega)
          (by simpa [hwsrc, hsrc] using hq)
        simp only [hwsrc, hsrc, hwsize, List.drop_succ_cons, List.drop_zero] at hbeyond hone htwo
        refine ⟨by omega, u, e, hu, hout', fun hlt => hbeyond (by omega), fun hge hlen' => ?_, fun hge hlen' => ?_⟩
        · obtain ⟨he, hsrcsz, hsize⟩ := hone (by omega) (by simpa using hlen')
          exact ⟨he, hsrcsz, by omega⟩
        · exact htwo (by omega) (by simpa using hlen')
    · rename_i hbit
      rw [if_neg hbit] at hq
      obtain ⟨w, hput, hwsrc, hwsrcsz, hwsize, hout⟩ := output_put h 0
      simp only [hput]
      obtain ⟨hle, u, e, hu, hout', hbeyond, hone, htwo⟩ := ih (i + 1) { w with size := w.size + 1 } hout
        (by simp only [hwsrc, hwsrcsz, hlen]) (by simpa [hwsrc] using hq)
      simp only [hwsrc, hwsize] at hbeyond hone htwo
      refine ⟨by omega, u, e, hu, hout', fun hlt => hbeyond (by omega), fun hge hlen' => ?_,
        fun hge hlen' => htwo (by omega) hlen'⟩
      obtain ⟨he, hsrcsz, hsize⟩ := hone (by omega) hlen'
      exact ⟨he, hsrcsz, by omega⟩

/-! ### The loop -/

/-- The variables before a round: the input from `p` on is left. -/
structure Before (bufsz : Nat) (mem : Nat → UInt8) (p : Bytes) (v : UnpackVars) : Prop where
  src : v.src = p
  srcsz : v.srcsz = p.length
  output : Output bufsz mem v

section Loop

variable {bufsz : Nat} {mem : Nat → UInt8} {v : UnpackVars}

theorem Before.next {header : UInt8} {p : Bytes} (h : Before bufsz mem (header :: p) v) :
    Before bufsz mem p { v with srcsz := v.srcsz - 1, src := v.src.drop 1 } where
  src := by simp only [h.src, List.drop_succ_cons, List.drop_zero]
  srcsz := by
    simp only [h.srcsz, List.length_cons]
    omega
  output := { h.output with }

/-- A run, or what is there of it. -/
theorem round_run {p : Bytes} {c : UInt8} (h : Before bufsz mem (0xff :: c :: p) v) :
    (p.length < (c.toNat + 1) * 8 ∧ ∃ w, unpackRoundOut v = (w, some .invalid) ∧ Output bufsz mem w) ∨
      ((c.toNat + 1) * 8 ≤ p.length ∧ ∃ w, unpackRoundOut v = (w, none) ∧
        Before bufsz mem (p.drop ((c.toNat + 1) * 8)) w ∧ w.size = v.size + (c.toNat + 1) * 8) := by
  obtain ⟨hsrc, hsrcsz, hout⟩ := h.next
  simp only [unpackRoundOut, h.src, readByte, if_true]
  rw [h.src] at hsrc hsrcsz hout
  rcases output_copy hout hsrc (by rw [hsrcsz, hsrc]) with ⟨hshort, hff⟩ | ⟨hwhole, w, hff, hwsrc, hwsrcsz, hwsize, hwout⟩
  · exact .inl ⟨hshort, _, by rw [hff], hout⟩
  · exact .inr ⟨hwhole, w, by rw [hff], ⟨hwsrc, by rw [hwsrcsz, hwsrc], hwout⟩, hwsize⟩

theorem round_plain {header : UInt8} {p : Bytes} (hff : header ≠ 0xff) (h : Before bufsz mem (header :: p) v) :
    unpackRoundOut v = unpackSegOut header.toNat 0 8 { v with srcsz := v.srcsz - 1, src := p } := by
  simp only [unpackRoundOut, h.src, readByte, if_neg hff, List.drop_succ_cons, List.drop_zero]

theorem round_whole {header : UInt8} {p : Bytes} (hff : header ≠ 0xff) (h : Before bufsz mem (header :: p) v)
    (hwhole : (bits header.toNat 0 8).length ≤ p.length) :
    ∃ w, unpackRoundOut v = (w, none) ∧ Before bufsz mem (p.drop (bits header.toNat 0 8).length) w ∧
      w.size = v.size + 8 := by
  obtain ⟨-, hsrcsz, hout⟩ := h.next
  obtain ⟨w, hw, hwsrc, hwsrcsz, hwsize, hwout⟩ := unpackSegOut_whole header.toNat 0 8
    { v with srcsz := v.srcsz - 1, src := p } { hout with } hsrcsz hwhole
  exact ⟨w, by rw [round_plain hff h, hw], ⟨hwsrc, by rw [hwsrcsz, hwsrc], hwout⟩, hwsize⟩

theorem loop_succ {fuel : Nat} {p : Bytes} {w : UnpackVars} (h : Before bufsz mem p v) (hp : p ≠ [])
    (hw : unpackRoundOut v = (w, none)) : unpackLoopOut (fuel + 1) v = unpackLoopOut fuel w := by
  rw [unpackLoopOut, if_pos (by rw [h.srcsz]; exact_mod_cast List.length_pos_iff.mpr hp), hw]

theorem loop_stop {fuel : Nat} {p : Bytes} {w : UnpackVars} {e : UnpackFail} (h : Before bufsz mem p v) (hp : p ≠ [])
    (hw : unpackRoundOut v = (w, some e)) : unpackLoopOut (fuel + 1) v = (w, some e) := by
  rw [unpackLoopOut, if_pos (by rw [h.srcsz]; exact_mod_cast List.length_pos_iff.mpr hp), hw]

/-- The loop takes the whole segments. -/
theorem loop_segments (p : Bytes) (fuel : Nat) (hfuel : p.length ≤ fuel) (h : Before bufsz mem p v) :
    ∃ fuel' w, unpackLoopOut fuel v = unpackLoopOut fuel' w ∧ (segments p).2.length ≤ fuel' ∧
      Before bufsz mem (segments p).2 w ∧ w.size = v.size + (segments p).1 := by
  induction p using segments.induct generalizing fuel v with
  | case1 =>
    rw [segments_nil]
    exact ⟨fuel, v, rfl, hfuel, h, rfl⟩
  | case2 =>
    rw [segments_header]
    exact ⟨fuel, v, rfl, hfuel, h, rfl⟩
  | case3 c p hshort =>
    rw [segments_run, if_pos hshort]
    exact ⟨fuel, v, rfl, hfuel, h, rfl⟩
  | case4 c p hwhole ih =>
    obtain ⟨hshort, -⟩ | ⟨-, w, hw, hbefore, hsize⟩ := round_run h
    · exact absurd hshort hwhole
    · cases fuel with
      | zero => exact absurd hfuel (by simp)
      | succ fuel =>
        rw [segments_run, if_neg hwhole]
        obtain ⟨fuel', u, hu, hfuel', hbefore', hsize'⟩ := ih fuel
          (by rw [List.length_drop]; simp only [List.length_cons] at hfuel; omega) hbefore
        exact ⟨fuel', u, by rw [loop_succ h (by simp) hw, hu], hfuel', hbefore', by simp only; omega⟩
  | case5 header p hff hshort =>
    rw [segments_plain hff, if_pos hshort]
    exact ⟨fuel, v, rfl, hfuel, h, rfl⟩
  | case6 header p hff hwhole ih =>
    obtain ⟨w, hw, hbefore, hsize⟩ := round_whole hff h (not_lt.mp hwhole)
    cases fuel with
    | zero => exact absurd hfuel (by simp)
    | succ fuel =>
      rw [segments_plain hff, if_neg hwhole]
      obtain ⟨fuel', u, hu, hfuel', hbefore', hsize'⟩ := ih fuel
        (by rw [List.length_drop]; simp only [List.length_cons] at hfuel; omega) hbefore
      exact ⟨fuel', u, by rw [loop_succ h (by simp) hw, hu], hfuel', hbefore', by simp only; omega⟩

/-- What is left is not a whole segment. -/
def Cut : Bytes → Prop
  | [] => True
  | header :: p =>
    if header = 0xff then ∀ c ds, p = c :: ds → ds.length < (c.toNat + 1) * 8
    else p.length < (bits header.toNat 0 8).length

theorem segments_cut (p : Bytes) : Cut (segments p).2 := by
  induction p using segments.induct with
  | case1 =>
    rw [segments_nil]
    trivial
  | case2 =>
    rw [segments_header, Cut, if_pos rfl]
    exact nofun
  | case3 c p hshort =>
    rw [segments_run, if_pos hshort, Cut, if_pos rfl]
    rintro c' ds he
    cases he
    exact hshort
  | case4 c p hwhole ih =>
    rw [segments_run, if_neg hwhole]
    exact ih
  | case5 header p hff hshort =>
    rw [segments_plain hff, if_pos hshort, Cut, if_neg hff]
    exact hshort
  | case6 header p hff hwhole ih =>
    rw [segments_plain hff, if_neg hwhole]
    exact ih

/-- How the loop ends where whole segments are all there is, or one is cut. -/
theorem loop_end {fuel : Nat} (h : v.srcsz ≤ 0) : unpackLoopOut fuel v = (v, none) := by
  cases fuel with
  | zero => rfl
  | succ fuel => rw [unpackLoopOut, if_neg (not_lt.mpr h)]

theorem loop_cut {p : Bytes} (fuel : Nat) (hfuel : p.length ≤ fuel) (h : Before bufsz mem p v) (hcut : Cut p) :
    ∃ w e, unpackLoopOut fuel v = (w, e) ∧ Output bufsz mem w ∧
      (p = [] → e = none ∧ w.size = v.size) ∧ (p ≠ [] → (Harmless bufsz v.size p ↔ e = some .invalid)) := by
  cases p with
  | nil =>
    have hend : v.srcsz ≤ 0 := by
      rw [h.srcsz]
      exact Int.le_refl 0
    exact ⟨v, none, loop_end hend, h.output, fun _ => ⟨rfl, rfl⟩, fun hne => absurd rfl hne⟩
  | cons header p =>
    have hne : header :: p ≠ [] := List.cons_ne_nil _ _
    cases fuel with
    | zero => exact absurd hfuel (by simp)
    | succ fuel =>
      by_cases hff : header = 0xff
      · subst hff
        rw [Cut, if_pos rfl] at hcut
        simp only [Harmless, if_true]
        cases p with
        | nil =>
          -- the count of the run is read behind the end
          obtain ⟨hsrc, hsrcsz, hout⟩ := h.next
          have hround : unpackRoundOut v = ({ v with srcsz := v.srcsz - 1, src := v.src.drop 1 }, some .beyond) := by
            simp only [unpackRoundOut, h.src, readByte, if_true, unpackFf]
            rw [if_neg (by rw [h.srcsz]; decide)]
            rfl
          exact ⟨_, _, loop_stop h hne hround, hout, fun hnil => absurd hnil hne, fun _ => by simp⟩
        | cons c p =>
          obtain ⟨-, w, hw, hout⟩ | ⟨hwhole, -⟩ := round_run h
          · exact ⟨w, _, loop_stop h hne hw, hout, fun hnil => absurd hnil hne, fun _ => by simp⟩
          · exact absurd (hcut c p rfl) (not_lt.mpr hwhole)
      · rw [Cut, if_neg hff] at hcut
        obtain ⟨-, hsrcsz, hout⟩ := h.next
        have hq : (bits header.toNat 0 8)[p.length]? = some _ := List.getElem?_eq_getElem hcut
        obtain ⟨-, w, e, hw, hwout, hbeyond, hone, htwo⟩ := unpackSegOut_cut header.toNat 0 8
          { v with srcsz := v.srcsz - 1, src := p } _ { hout with } hsrcsz hq
        rw [← round_plain hff h] at hw
        simp only [Nat.add_zero] at hbeyond hone htwo
        simp only [Harmless, if_neg hff]
        by_cases hroom : v.size + (bits header.toNat 0 8)[p.length] < bufsz
        · obtain rfl := hbeyond hroom
          refine ⟨w, _, loop_stop h hne hw, hwout, fun hnil => absurd hnil hne, fun _ => ?_⟩
          refine iff_of_false ?_ (by simp)
          rintro ⟨-, hfull⟩
          exact absurd (hfull _ hq) (not_le.mpr hroom)
        · by_cases hmissing : (bits header.toNat 0 8).length = p.length + 1
          · obtain ⟨rfl, hend, -⟩ := hone (not_lt.mp hroom) hmissing
            refine ⟨w, none, (loop_succ h hne hw).trans (loop_end (by rw [hend]; decide)), hwout,
              fun hnil => absurd hnil hne, fun _ => ?_⟩
            refine iff_of_false ?_ (by simp)
            rintro ⟨hlen, -⟩
            omega
          · obtain rfl := htwo (not_lt.mp hroom) (by omega)
            refine ⟨w, _, loop_stop h hne hw, hwout, fun hnil => absurd hnil hne, fun _ => ?_⟩
            refine iff_of_true ⟨by omega, ?_⟩ rfl
            intro q hq'
            rw [hq, Option.some.injEq] at hq'
            omega

end Loop

end Sproto
end Skynet
