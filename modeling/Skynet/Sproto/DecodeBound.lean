import Skynet.Sproto.Items

/-!
# Skynet.Sproto.DecodeBound

`sproto_decode` on any bytes and with any callback: what it reads and what it hands to the callback.

* `Message.reading` : the records and the data of a message, and where the length of some data, which is from `2 ^ 32 - 4`
  on and passes the check in 32 bits, is used.
* `watch` : a callback that is given no range outside of the input.
* `decode_checked_iff` : the messages that are handled as they should be, whatever the callback does.
-/

namespace Skynet
namespace Sproto

/-! ### The layout of a message -/

namespace Message

inductive Outcome where
  | whole
  /-- The message is malformed. -/
  | refused
  /-- A length that wraps around is used. -/
  | overread
deriving Repr, DecidableEq

/-- What comes behind is read where this is whole. -/
def Outcome.andThen : Outcome → Outcome → Outcome
  | .whole, rest => rest
  | o, _ => o

/-- Lengths to which 4 is added in 32 bits with a carry. -/
def wraps (sz : Nat) : Bool := decide (0x100000000 - SIZEOF_LENGTH ≤ sz)

/-- Objects, each behind its length. -/
def objects : Nat → Bytes → Bool
  | 0, _ => false
  | fuel + 1, bs =>
    if bs.isEmpty then true
    else if bs.length < SIZEOF_LENGTH then false
    else
      let hsz := Endian.ofLe (bs.take SIZEOF_LENGTH)
      if bs.length - SIZEOF_LENGTH < hsz then false else objects fuel (bs.drop (SIZEOF_LENGTH + hsz))

/-- An array of integers: the width, and as many integers as the length tells. -/
def integers (sz : Nat) : Bytes → Outcome
  | [] => .overread
  | len :: _ =>
    if len.toNat = 4 then if (sz - 1) % 4 ≠ 0 then .refused else if wraps sz then .overread else .whole
    else if len.toNat = 8 then if (sz - 1) % 8 ≠ 0 then .refused else .whole
    else .refused

/-- The data of a field, behind its length. -/
def fieldData (f : Field) (sz : Nat) (data : Bytes) : Outcome :=
  if f.array then
    if sz = 0 then .whole
    else
      match f.type with
      | .integer => integers sz data
      | .boolean => if wraps sz then .overread else .whole
      | .string | .struct _ => if wraps sz ∨ objects (sz + 1) (data.take sz) then .whole else .refused
  else
    match f.type with
    | .integer => if sz = 4 ∨ sz = 8 then .whole else .refused
    | .boolean => .refused
    | .string | .struct _ => if wraps sz then .overread else .whole

/-- A value in a record. -/
def inline (f : Field) : Outcome :=
  if f.array = false ∧ (f.type = .integer ∨ f.type = .boolean) then .whole else .refused

/-- The records and the data that is left to them. -/
def fields (st : SprotoType) : Nat → Bytes → Int → Bytes → Outcome
  | 0, _, _, _ => .whole
  | fn + 1, records, tag, data =>
    let value := Endian.ofLe (records.take SIZEOF_FIELD)
    let records := records.drop SIZEOF_FIELD
    let tag := tag + 1
    if value % 2 = 1 then fields st fn records (tag + (value / 2 : Nat)) data
    else if value = 0 then
      if data.length < SIZEOF_LENGTH then .refused
      else
        let sz := Endian.ofLe (data.take SIZEOF_LENGTH)
        let next := data.drop ((sz + SIZEOF_LENGTH) % 0x100000000)
        if ¬ wraps sz ∧ data.length < sz + SIZEOF_LENGTH then .refused
        else
          match findtag st tag with
          | none => fields st fn records tag next
          | some f => (fieldData f sz (data.drop SIZEOF_LENGTH)).andThen (fields st fn records tag next)
    else
      match findtag st tag with
      | none => fields st fn records tag data
      | some f => (inline f).andThen (fields st fn records tag data)

def reading (st : SprotoType) (msg : Bytes) : Outcome :=
  if msg.length < SIZEOF_HEADER then .refused
  else
    let fn := Endian.ofLe (msg.take SIZEOF_HEADER)
    let records := msg.drop SIZEOF_HEADER
    if records.length < fn * SIZEOF_FIELD then .refused
    else fields st fn records (-1) (records.drop (fn * SIZEOF_FIELD))

end Message

open Message (Outcome wraps)

/-! ### Callbacks -/

section Callbacks

variable {σ : Type}

/-- A callback that is given no range outside of `lo .. hi`. -/
def watch (lo hi : Nat) (cb : DecodeCb σ) : DecodeCb σ := fun args ud =>
  match args.value with
  | .range offset length =>
    if lo ≤ offset ∧ 0 ≤ length ∧ offset + length ≤ hi then cb args ud else .error .beyond
  | _ => cb args ud

/-- The callback returns. -/
def Returns (cb : DecodeCb σ) : Prop := ∀ args ud, ∃ r, cb args ud = .ok r

/-- The callback takes every value. -/
def Accepts (cb : DecodeCb σ) : Prop := ∀ args ud, ∃ ud', cb args ud = .ok (0, ud')

/-- What the decoder makes of a field. -/
def Meets (cb : DecodeCb σ) : Outcome → Except Fault (Option σ) → Prop
  | .whole, x => ∃ r, x = .ok r ∧ (Accepts cb → r.isSome)
  | .refused, x => x = .ok none
  | .overread, x => x = .error .beyond

variable {cb : DecodeCb σ} {lo : Nat} {buf : Bytes}

theorem readLe_drop {k : Nat} (hk : 0 < k) (offset : Nat) :
    readLe buf k offset =
      if (buf.drop offset).length < k then .error .beyond else .ok (Endian.ofLe ((buf.drop offset).take k)) := by
  have hlen := List.length_drop (i := offset) (l := buf)
  unfold readLe
  split <;> split <;> first | rfl | omega

theorem readLe_ok (k offset : Nat) (h : offset + k ≤ buf.length) : ∃ n, readLe buf k offset = .ok n :=
  ⟨_, if_pos h⟩

theorem readLe_beyond {k offset : Nat} (h : buf.length < offset + k) : readLe buf k offset = .error .beyond :=
  if_neg (by omega)

/-- The value of a range that is in the input. -/
theorem watch_range (hcb : Returns cb) (args : DecodeArg) {offset : Nat} {length : Int} (ud : σ)
    (hvalue : args.value = .range offset length) (hlo : lo ≤ offset) (hlength : 0 ≤ length)
    (hhi : offset + length ≤ buf.length) :
    ∃ r ud', watch lo buf.length cb args ud = .ok (r, ud') ∧ (Accepts cb → r = 0) := by
  obtain ⟨⟨r, ud'⟩, hr⟩ := hcb args ud
  refine ⟨r, ud', ?_, ?_⟩
  · unfold watch
    rw [hvalue]
    simp only
    rw [if_pos ⟨hlo, hlength, hhi⟩, hr]
  · intro hacc
    obtain ⟨ud'', h⟩ := hacc args ud
    rw [hr] at h
    cases h
    rfl

theorem watch_negative (cb : DecodeCb σ) {lo hi : Nat} (args : DecodeArg) {offset : Nat} {length : Int} (ud : σ)
    (hvalue : args.value = .range offset length) (hlength : length < 0) : watch lo hi cb args ud = .error .beyond := by
  unfold watch
  rw [hvalue]
  simp only
  rw [if_neg (by omega)]

/-- A callback that is given an integer or nothing. -/
theorem watch_plain (hcb : Returns cb) (lo hi : Nat) (args : DecodeArg) (ud : σ)
    (hvalue : ∀ offset length, args.value ≠ .range offset length) : ∃ r ud', watch lo hi cb args ud = .ok (r, ud') := by
  obtain ⟨⟨r, ud'⟩, hr⟩ := hcb args ud
  refine ⟨r, ud', ?_⟩
  unfold watch
  split
  · rename_i offset length h
    exact absurd h (hvalue offset length)
  · exact hr

/-! ### Arrays -/

section Items

variable (lo hi : Nat) (args : DecodeArg) (item : Nat → Except Fault (BitVec 64))

theorem decodeItems_ok (hcb : Returns cb) {n i : Nat} (ud : σ) (hitem : ∀ j < n, ∃ v, item (i + j) = .ok v) :
    ∃ ud', decodeItems (watch lo hi cb) args item n i ud = .ok ud' := by
  induction n generalizing i ud with
  | zero => exact ⟨ud, rfl⟩
  | succ n ih =>
    obtain ⟨v, hv⟩ := hitem 0 (Nat.succ_pos n)
    obtain ⟨r, ud', hr⟩ := watch_plain hcb lo hi { args with index := i + 1, value := .u64 v } ud (by simp)
    have hrest : ∀ j < n, ∃ v, item (i + 1 + j) = .ok v := by
      intro j hj
      rw [show i + 1 + j = i + (j + 1) by omega]
      exact hitem (j + 1) (by omega)
    obtain ⟨ud'', h⟩ := ih ud' hrest
    refine ⟨ud'', ?_⟩
    rw [decodeItems, show item i = .ok v from hv]
    simp only [bind, Except.bind, hr]
    exact h

theorem decodeItems_beyond (hcb : Returns cb) {n i : Nat} (ud : σ)
    (hread : ∀ j, item j = .error .beyond ∨ ∃ v, item j = .ok v) (hout : ∃ j < n, item (i + j) = .error .beyond) :
    decodeItems (watch lo hi cb) args item n i ud = .error .beyond := by
  induction n generalizing i ud with
  | zero =>
    obtain ⟨j, hj, -⟩ := hout
    omega
  | succ n ih =>
    rw [decodeItems]
    rcases hread i with herr | ⟨v, hv⟩
    · rw [herr]
      rfl
    · obtain ⟨j, hj, hj'⟩ := hout
      have hne : j ≠ 0 := by
        rintro rfl
        rw [Nat.add_zero, hv] at hj'
        cases hj'
      obtain ⟨r, ud', hr⟩ := watch_plain hcb lo hi { args with index := i + 1, value := .u64 v } ud (by simp)
      rw [hv]
      simp only [bind, Except.bind, hr]
      refine ih ud' ⟨j - 1, by omega, ?_⟩
      rw [show i + 1 + (j - 1) = i + j by omega]
      exact hj'

end Items

theorem map_readLe {α : Type} (k offset : Nat) (f : Nat → α) :
    ((readLe buf k offset).map f = .error .beyond ∨ ∃ v, (readLe buf k offset).map f = .ok v) := by
  unfold readLe
  split
  · exact .inr ⟨_, rfl⟩
  · exact .inl rfl

theorem map_readLe_ok {α : Type} {k offset : Nat} (f : Nat → α) (h : offset + k ≤ buf.length) :
    ∃ v, (readLe buf k offset).map f = .ok v :=
  ⟨_, by rw [readLe, if_pos h]; rfl⟩

theorem toqword_ok {offset : Nat} (h : offset + 8 ≤ buf.length) : ∃ v, toqword buf offset = .ok v := by
  obtain ⟨low, hlow⟩ : ∃ n, readLe buf 4 offset = .ok n := readLe_ok 4 offset (by omega)
  obtain ⟨hi, hhi⟩ : ∃ n, readLe buf 4 (offset + 4) = .ok n := readLe_ok 4 (offset + 4) (by omega)
  refine ⟨BitVec.ofNat 64 low ||| BitVec.ofNat 64 hi <<< 32, ?_⟩
  rw [toqword, todword, hlow]
  simp only [todword, hhi, bind, Except.bind]

theorem decodeIntegers_meets (hcb : Returns cb) (hbuf : buf.length < 2 ^ 31) (args : DecodeArg) {stream sz : Nat} (ud : σ)
    (hsz : sz < 2 ^ 32) (hfit : wraps sz = false → stream + sz ≤ buf.length) :
    Meets cb (Message.integers sz (buf.drop stream)) (decodeIntegers (watch lo buf.length cb) args buf stream sz ud) := by
  unfold decodeIntegers
  rw [readLe_drop Nat.one_pos]
  cases hdata : buf.drop stream with
  | nil => rfl
  | cons len rest =>
    have hone : Endian.ofLe ((len :: rest).take 1) = len.toNat := by simp [Endian.ofLe]
    rw [if_neg (by simp), hone]
    simp only [bind, Except.bind, Message.integers]
    split
    · split
      · rfl
      rename_i hmod
      split
      · rename_i hwraps
        have hwraps : 0x100000000 - 4 ≤ sz := of_decide_eq_true hwraps
        -- the last of the integers is behind the end
        have hlast : (todword buf (stream + 1 + (0 + ((sz - 1) / 4 - 1)) * 4)).map expand64 = .error .beyond := by
          rw [todword, readLe_beyond (by omega)]
          rfl
        rw [decodeItems_beyond _ _ args (fun i => (todword buf (stream + 1 + i * 4)).map expand64) hcb ud
          (fun j => map_readLe 4 _ _) ⟨_, by omega, hlast⟩]
        rfl
      · rename_i hwraps
        have hfit := hfit (by simpa using hwraps)
        have hitem : ∀ j < (sz - 1) / 4, ∃ v, (todword buf (stream + 1 + (0 + j) * 4)).map expand64 = .ok v :=
          fun j hj => map_readLe_ok _ (by omega)
        obtain ⟨ud', hud⟩ := decodeItems_ok lo buf.length args
          (fun i => (todword buf (stream + 1 + i * 4)).map expand64) hcb ud hitem
        rw [hud]
        exact ⟨some ud', rfl, fun _ => rfl⟩
    · split
      · split
        · rfl
        rename_i hmod
        have hwraps : wraps sz = false := by
          rw [wraps, decide_eq_false_iff_not]
          simp only [SIZEOF_LENGTH]
          omega
        have hfit := hfit hwraps
        have hitem : ∀ j < (sz - 1) / 8, ∃ v, toqword buf (stream + 1 + (0 + j) * 8) = .ok v :=
          fun j hj => toqword_ok (by omega)
        obtain ⟨ud', hud⟩ := decodeItems_ok lo buf.length args (fun i => toqword buf (stream + 1 + i * 8)) hcb ud hitem
        rw [hud]
        exact ⟨some ud', rfl, fun _ => rfl⟩
      · rfl

theorem int32_of_wraps {sz : Nat} (hsz : sz < 2 ^ 32) (h : wraps sz = true) : int32 sz < 0 := by
  have h : 0x100000000 - 4 ≤ sz := of_decide_eq_true h
  have hsub : int32 sz = ((sz : Int) - 0x100000000).bmod 0x100000000 := (Int.sub_bmod_right _ _).symm
  rw [hsub, Int.bmod_eq_of_le (by omega) (by omega)]
  omega

theorem objects_short {fuel : Nat} {bs : Bytes} (hne : bs ≠ []) (hlen : bs.length < SIZEOF_LENGTH) :
    Message.objects (fuel + 1) bs = false := by
  rw [Message.objects, if_neg (by simpa using hne), if_pos hlen]

/-- One object at the beginning of the data of an array. -/
theorem objects_cons {fuel : Nat} {bs : Bytes} (hne : bs ≠ []) (hlen : SIZEOF_LENGTH ≤ bs.length) :
    Message.objects (fuel + 1) bs =
      if bs.length - SIZEOF_LENGTH < Endian.ofLe (bs.take SIZEOF_LENGTH) then false
      else Message.objects fuel (bs.drop (SIZEOF_LENGTH + Endian.ofLe (bs.take SIZEOF_LENGTH))) := by
  rw [Message.objects, if_neg (by simpa using hne), if_neg (by omega)]

theorem decodeArrayObject_short (cb : DecodeCb σ) (args : DecodeArg) (fuel stream : Nat) {sz : Nat} {index : Nat} (ud : σ)
    (hpos : 0 < sz) (hshort : sz < 4) : decodeArrayObject cb args buf (fuel + 1) stream sz index ud = .ok none := by
  rw [decodeArrayObject, if_pos (by omega), if_pos (by rw [SIZEOF_LENGTH]; omega)]

/-- One pass of the loop of `decode_array_object`. -/
theorem decodeArrayObject_cons (cb : DecodeCb σ) (args : DecodeArg) (fuel : Nat) {stream sz : Nat} (index : Nat) (ud : σ)
    (hbuf : buf.length < 2 ^ 31) (hlong : 4 ≤ sz) (hfit : stream + sz ≤ buf.length) :
    decodeArrayObject cb args buf (fuel + 1) stream sz index ud =
      let hsz := Endian.ofLe ((buf.drop stream).take 4)
      if sz - 4 < hsz then .ok none
      else cb { args with index := index, value := .range (stream + 4) hsz } ud >>= fun p =>
        if p.1 ≠ 0 then .ok none
        else decodeArrayObject cb args buf fuel (stream + (4 + hsz)) (sz - (4 + hsz) : Nat) (index + 1) p.2 := by
  rw [decodeArrayObject, if_pos (by omega), if_neg (by rw [SIZEOF_LENGTH]; omega), todword, readLe, if_pos (by omega)]
  have huint : uint32 ((sz : Int) - 4) = sz - 4 := by
    rw [show (sz : Int) - 4 = (sz - 4 : Nat) by omega, uint32_of_lt (by omega)]
  simp only [bind, Except.bind, SIZEOF_LENGTH, Int.cast_ofNat_Int, huint]
  split
  · rfl
  rename_i hroom
  rw [int32_of_lt (by omega),
    show (sz : Int) - 4 - Endian.ofLe ((buf.drop stream).take 4) = (sz - (4 + Endian.ofLe ((buf.drop stream).take 4)) : Nat) by omega,
    Nat.add_assoc]

theorem decodeArrayObject_meets (hcb : Returns cb) (hbuf : buf.length < 2 ^ 31) (args : DecodeArg) (fuel : Nat)
    {stream sz : Nat} (index : Nat) (ud : σ) (hfuel : sz < fuel) (hlo : lo ≤ stream) (hfit : stream + sz ≤ buf.length) :
    Meets cb (if Message.objects fuel ((buf.drop stream).take sz) then .whole else .refused)
      (decodeArrayObject (watch lo buf.length cb) args buf fuel stream sz index ud) := by
  induction fuel generalizing stream sz index ud with
  | zero => omega
  | succ fuel ih =>
    have hlen : ((buf.drop stream).take sz).length = sz := by
      rw [List.length_take, List.length_drop]
      omega
    rcases Nat.eq_zero_or_pos sz with rfl | hpos
    · exact ⟨some ud, rfl, fun _ => rfl⟩
    have hne : (buf.drop stream).take sz ≠ [] := List.ne_nil_of_length_pos (by omega)
    by_cases hlong : sz < 4
    · rw [objects_short hne (by rw [hlen]; exact hlong), decodeArrayObject_short _ _ _ _ _ hpos hlong]
      rfl
    have htake : ((buf.drop stream).take sz).take 4 = (buf.drop stream).take 4 := by
      rw [List.take_take, Nat.min_eq_left (by omega)]
    rw [objects_cons hne (by rw [hlen, SIZEOF_LENGTH]; omega), decodeArrayObject_cons _ _ _ _ _ hbuf (by omega) hfit]
    simp only [SIZEOF_LENGTH, hlen, htake]
    generalize Endian.ofLe ((buf.drop stream).take 4) = hsz
    split
    · rfl
    rename_i hroom
    obtain ⟨r, ud', hr, hzero⟩ := watch_range hcb
      { args with index := index, value := .range (stream + 4) hsz } ud rfl (show lo ≤ stream + 4 by omega)
      (Int.natCast_nonneg hsz) (show ((stream + 4 : Nat) : Int) + hsz ≤ buf.length by omega)
    rw [hr, List.drop_take, List.drop_drop]
    simp only [bind, Except.bind]
    by_cases hz : r = 0
    · rw [if_neg (not_not.mpr hz)]
      exact ih (index + 1) ud' (by omega) (by omega) (by omega)
    · rw [if_pos hz]
      split
      · exact ⟨none, rfl, fun hacc => absurd (hzero hacc) hz⟩
      · rfl

theorem decodeArrayObject_negative (cb : DecodeCb σ) (args : DecodeArg) {fuel : Nat} (stream : Nat) {sz : Int}
    (index : Nat) (ud : σ) (hfuel : 0 < fuel) (hsz : sz < 0) :
    decodeArrayObject cb args buf fuel stream sz index ud = .ok (some ud) := by
  obtain ⟨n, rfl⟩ := Nat.exists_eq_add_of_lt hfuel
  rw [Nat.zero_add, decodeArrayObject, if_neg (by omega)]

/-! ### Fields -/

theorem decodeInteger_meets (hcb : Returns cb) (args : DecodeArg) {current sz : Nat} (ud : σ)
    (hread : todword buf current = .ok sz) (hfit : wraps sz = false → current + 4 + sz ≤ buf.length) :
    Meets cb (if sz = 4 ∨ sz = 8 then .whole else .refused)
      (decodeInteger (watch lo buf.length cb) args buf current ud) := by
  rw [decodeInteger, hread]
  simp only [bind, Except.bind, SIZEOF_LENGTH]
  by_cases h4 : sz = 4
  · subst h4
    obtain ⟨v, hv⟩ := readLe_ok 4 (current + 4) (hfit rfl)
    obtain ⟨r, ud', hr⟩ := watch_plain hcb lo buf.length { args with value := .u64 (expand64 v) } ud (by simp)
    rw [if_pos (.inl rfl), if_pos rfl, todword, hv]
    simp only [hr]
    exact ⟨some ud', rfl, fun _ => rfl⟩
  rw [if_neg h4]
  by_cases h8 : sz = 8
  · subst h8
    obtain ⟨v, hv⟩ := toqword_ok (hfit rfl)
    obtain ⟨r, ud', hr⟩ := watch_plain hcb lo buf.length { args with value := .u64 v } ud (by simp)
    rw [if_pos (.inr rfl), if_neg (not_not.mpr rfl), hv]
    simp only [hr]
    exact ⟨some ud', rfl, fun _ => rfl⟩
  rw [if_neg (not_or.mpr ⟨h4, h8⟩), if_pos h8]
  rfl

theorem decodeObject_meets (hcb : Returns cb) (hbuf : buf.length < 2 ^ 31) (args : DecodeArg) {current sz : Nat} (ud : σ)
    (hlo : lo ≤ current) (hsz : sz < 2 ^ 32) (hread : todword buf current = .ok sz)
    (hfit : wraps sz = false → current + 4 + sz ≤ buf.length) :
    Meets cb (if wraps sz then .overread else .whole) (decodeObject (watch lo buf.length cb) args buf current ud) := by
  rw [decodeObject, hread]
  simp only [bind, Except.bind, SIZEOF_LENGTH]
  cases hwraps : wraps sz with
  | true =>
    rw [watch_negative cb _ ud rfl (int32_of_wraps hsz hwraps)]
    rfl
  | false =>
    have hfit := hfit hwraps
    rw [int32_of_lt (by omega)]
    obtain ⟨r, ud', hr, hzero⟩ := watch_range hcb { args with value := .range (current + 4) sz } ud rfl
      (show lo ≤ current + 4 by omega) (Int.natCast_nonneg sz) (show ((current + 4 : Nat) : Int) + sz ≤ buf.length by omega)
    rw [hr]
    simp only [Bool.false_eq_true, if_false]
    split
    · rename_i hr0
      exact ⟨none, rfl, fun hacc => absurd (hzero hacc) hr0⟩
    · exact ⟨some ud', rfl, fun _ => rfl⟩

/-- The data of a field: the length is there, and so are the bytes that it tells, unless it wraps around. -/
theorem decodeData_meets (hcb : Returns cb) (hbuf : buf.length < 2 ^ 31) (f : Field) {current : Nat} (ud : σ)
    (hlo : lo ≤ current) (hlen : current + 4 ≤ buf.length)
    (hfit : wraps (Endian.ofLe ((buf.drop current).take 4)) = false →
      current + 4 + Endian.ofLe ((buf.drop current).take 4) ≤ buf.length) :
    Meets cb (Message.fieldData f (Endian.ofLe ((buf.drop current).take 4)) (buf.drop (current + 4)))
      (decodeData (watch lo buf.length cb) buf f current ud) := by
  have hread : todword buf current = .ok (Endian.ofLe ((buf.drop current).take 4)) := by rw [todword, readLe, if_pos hlen]
  have hsz : Endian.ofLe ((buf.drop current).take 4) < 2 ^ 32 := by
    have hlt := Endian.ofLe_lt ((buf.drop current).take 4)
    rwa [List.length_take, List.length_drop, Nat.min_eq_left (by omega)] at hlt
  revert hread hsz hfit
  generalize Endian.ofLe ((buf.drop current).take 4) = sz
  intro hfit hread hsz
  unfold decodeData Message.fieldData
  split
  · -- an array
    rw [decodeArray, hread]
    simp only [bind, Except.bind, SIZEOF_LENGTH]
    split
    · obtain ⟨r, ud', hr⟩ := watch_plain hcb lo buf.length { decodeArg f with index := -1, value := .null } ud (by simp)
      rw [hr]
      exact ⟨some ud', rfl, fun _ => rfl⟩
    rename_i hne
    rw [show (decodeArg f).type = f.type from rfl]
    cases htype : f.type with
    | integer => exact decodeIntegers_meets hcb hbuf _ ud hsz hfit
    | boolean =>
      simp only
      split
      · rename_i hwraps
        have hwraps : 0x100000000 - 4 ≤ sz := of_decide_eq_true hwraps
        have hlast : (readLe buf 1 (current + 4 + (0 + (sz - 1)))).map (BitVec.ofNat 64) = .error .beyond := by
          rw [readLe_beyond (by omega)]
          rfl
        rw [decodeItems_beyond _ _ (decodeArg f) (fun i => (readLe buf 1 (current + 4 + i)).map (BitVec.ofNat 64)) hcb ud
          (fun j => map_readLe 1 _ _) ⟨_, by omega, hlast⟩]
        rfl
      · rename_i hwraps
        have hfit := hfit (by simpa using hwraps)
        have hitem : ∀ j < sz, ∃ v, (readLe buf 1 (current + 4 + (0 + j))).map (BitVec.ofNat 64) = .ok v :=
          fun j hj => map_readLe_ok _ (by omega)
        obtain ⟨ud', hud⟩ := decodeItems_ok lo buf.length (decodeArg f)
          (fun i => (readLe buf 1 (current + 4 + i)).map (BitVec.ofNat 64)) hcb ud hitem
        rw [hud]
        exact ⟨some ud', rfl, fun _ => rfl⟩
    | string | struct _ =>
      simp only
      cases hwraps : wraps sz with
      | true =>
        rw [decodeArrayObject_negative _ _ _ _ _ (Nat.succ_pos sz) (int32_of_wraps hsz hwraps)]
        exact ⟨some ud, rfl, fun _ => rfl⟩
      | false =>
        have hfit := hfit hwraps
        rw [int32_of_lt (by omega)]
        simp only [Bool.false_eq_true, false_or]
        exact decodeArrayObject_meets hcb hbuf _ _ _ ud (Nat.lt_succ_self sz) (by omega) (by omega)
  · cases htype : f.type with
    | integer =>
      exact decodeInteger_meets hcb (decodeArg f) ud hread hfit
    | boolean => rfl
    | string | struct _ =>
      exact decodeObject_meets hcb hbuf (decodeArg f) ud hlo hsz hread hfit

theorem decodeInline_meets (hcb : Returns cb) (f : Field) (value : Nat) (ud : σ) :
    Meets cb (Message.inline f) (decodeInline (watch lo buf.length cb) f value ud) := by
  unfold decodeInline Message.inline
  split
  · obtain ⟨r, ud', hr⟩ := watch_plain hcb lo buf.length { decodeArg f with value := .u64 (BitVec.ofNat 64 value) } ud
      (by simp)
    rw [hr]
    exact ⟨some ud', rfl, fun _ => rfl⟩
  · rfl

/-! ### Messages -/

/-- What the decoder makes of the records: unless it uses a length that wraps around, it returns, and the size that is
left is not negative. -/
def Leaves (cb : DecodeCb σ) (size : Int) : Outcome → Except Fault (Option (Int × σ)) → Prop
  | .overread, x => Accepts cb → x = .error .beyond
  | _, x => ∃ r, x = .ok r ∧ ∀ p ∈ r, 0 ≤ p.1 ∧ p.1 ≤ size

theorem Leaves.mono {size size' : Int} {o : Outcome} {x : Except Fault (Option (Int × σ))} (h : Leaves cb size o x)
    (hle : size ≤ size') : Leaves cb size' o x := by
  cases o with
  | overread => exact h
  | whole | refused =>
    obtain ⟨r, hr, hp⟩ := h
    refine ⟨r, hr, ?_⟩
    intro p hmem
    have := hp p hmem
    omega

/-- A field, and the records behind it. -/
theorem Leaves.bind {size : Int} {o rest : Outcome} {x : Except Fault (Option σ)}
    {k : σ → Except Fault (Option (Int × σ))} (hx : Meets cb o x) (hk : ∀ ud, Leaves cb size rest (k ud)) :
    Leaves cb size (o.andThen rest)
      (x >>= fun r => match r with | none => .ok none | some ud => k ud) := by
  cases o with
  | whole =>
    obtain ⟨r, rfl, hsome⟩ := hx
    cases r with
    | some ud => exact hk ud
    | none =>
      cases rest with
      | overread => exact fun hacc => absurd (hsome hacc) (by simp)
      | whole | refused => exact ⟨none, rfl, by simp⟩
  | refused =>
    cases hx
    exact ⟨none, rfl, by simp⟩
  | overread =>
    cases hx
    exact fun _ => rfl

/-- The search for the field, the field, and the records behind it. -/
theorem decodeTag_leaves {size value tag : Int} {current : Nat} {st : SprotoType} {o : Field → Outcome} {rest : Outcome}
    {k : σ → Except Fault (Option (Int × σ))} (ud : σ)
    (hfield : ∀ f, Meets cb (o f) (if value < 0 then decodeData (watch lo buf.length cb) buf f current ud
      else decodeInline (watch lo buf.length cb) f value.toNat ud)) (hk : ∀ ud, Leaves cb size rest (k ud)) :
    Leaves cb size (match findtag st tag with | none => rest | some f => (o f).andThen rest)
      (decodeTag (watch lo buf.length cb) buf st tag value current ud >>= fun r =>
        match r with | none => .ok none | some ud => k ud) := by
  unfold decodeTag
  cases findtag st tag with
  | none => exact hk ud
  | some f => exact .bind (hfield f) hk

theorem decodeFields_leaves (hcb : Returns cb) (hbuf : buf.length < 2 ^ 31) (st : SprotoType) (fn : Nat) {stream : Nat}
    (tag : Int) {datastream size : Nat} (ud : σ) (hlo : lo ≤ datastream) (hrecords : stream + fn * 2 ≤ buf.length)
    (hdata : datastream + size = buf.length) :
    Leaves cb size (Message.fields st fn (buf.drop stream) tag (buf.drop datastream))
      (decodeFields (watch lo buf.length cb) buf st fn stream tag datastream size ud) := by
  induction fn generalizing stream tag datastream size ud with
  | zero =>
    refine ⟨some (size, ud), rfl, ?_⟩
    rintro p ⟨⟩
    exact ⟨Int.natCast_nonneg size, Int.le_refl _⟩
  | succ fn ih =>
    have hlen : (buf.drop datastream).length = size := by
      rw [List.length_drop]
      omega
    have hread : toword buf stream = .ok (Endian.ofLe ((buf.drop stream).take 2)) := by
      rw [toword, readLe, if_pos (by omega)]
    unfold decodeFields Message.fields
    rw [hread]
    simp only [bind, Except.bind, SIZEOF_FIELD, List.drop_drop]
    generalize Endian.ofLe ((buf.drop stream).take 2) = value
    split
    · exact ih _ _ hlo (by omega) hdata
    by_cases hzero : value = 0
    · -- the value is in the data
      have hneg : ((value / 2 : Nat) : Int) - 1 < 0 := by omega
      have h4 : SIZEOF_LENGTH = 4 := rfl
      rw [if_pos hzero, if_pos hneg]
      by_cases hshort : size < SIZEOF_LENGTH
      · rw [if_pos (by rw [hlen]; exact hshort), if_pos (by omega)]
        exact ⟨none, rfl, by simp⟩
      have hsz : todword buf datastream = .ok (Endian.ofLe ((buf.drop datastream).take SIZEOF_LENGTH)) := by
        rw [todword, readLe, if_pos (by omega)]
        rfl
      have hlt : Endian.ofLe ((buf.drop datastream).take SIZEOF_LENGTH) < 2 ^ 32 := by
        have hlt := Endian.ofLe_lt ((buf.drop datastream).take SIZEOF_LENGTH)
        rw [List.length_take, hlen, Nat.min_eq_left (by omega)] at hlt
        exact hlt
      have hmeets := fun f => decodeData_meets hcb hbuf f ud hlo (show datastream + 4 ≤ buf.length by omega)
      rw [← h4] at hmeets
      rw [if_neg (by rw [hlen]; exact hshort), if_neg (show ¬ (size : Int) < SIZEOF_LENGTH by omega), hsz]
      simp only [uint32_of_lt (show size < 2 ^ 31 by omega), hlen]
      revert hlt hmeets
      generalize Endian.ofLe ((buf.drop datastream).take SIZEOF_LENGTH) = sz
      intro hlt hmeets
      have hwraps : wraps sz = true ↔ 0x100000000 - SIZEOF_LENGTH ≤ sz := decide_eq_true_iff
      by_cases hroom : size < (sz + SIZEOF_LENGTH) % 0x100000000
      · -- a length that does not wrap around is checked
        have hchecked : ¬ wraps sz = true ∧ size < sz + SIZEOF_LENGTH := by rw [hwraps]; omega
        rw [if_pos hchecked, if_pos hroom]
        exact ⟨none, rfl, by simp⟩
      · have hpassed : ¬ (¬ wraps sz = true ∧ size < sz + SIZEOF_LENGTH) := by rw [hwraps]; omega
        rw [if_neg hpassed, if_neg hroom,
          show (size : Int) - ((sz + SIZEOF_LENGTH) % 0x100000000 : Nat) =
            (size - (sz + SIZEOF_LENGTH) % 0x100000000 : Nat) by omega]
        refine decodeTag_leaves ud (fun f => ?_) fun ud => (ih _ ud (by omega) (by omega) (by omega)).mono (by omega)
        rw [if_pos hneg]
        refine hmeets f fun hw => ?_
        rw [← Bool.not_eq_true, hwraps] at hw
        omega
    · rw [if_neg hzero, if_neg (by omega)]
      refine decodeTag_leaves ud (fun f => ?_) fun ud => ih _ _ hlo (by omega) hdata
      rw [if_neg (by omega)]
      exact decodeInline_meets hcb f _ ud

end Callbacks

/-- The message behind any bytes, as a struct is found in its message. Whatever the callback makes of its arguments, no
byte behind the message is read, no range outside of the message is handed to the callback, and the return is -1 or a
size within the message. -/
def Checked (st : SprotoType) (msg : Bytes) : Prop :=
  ∀ (σ : Type) (cb : DecodeCb σ) (ud : σ) (pre : Bytes), Returns cb → (pre ++ msg).length < 2 ^ 31 →
    ∃ r, sprotoDecode (watch pre.length (pre ++ msg).length cb) (pre ++ msg) st pre.length msg.length ud = .ok r ∧
      ∀ p ∈ r, 0 ≤ p.1 ∧ p.1 ≤ msg.length

section Decode

variable {σ : Type} {cb : DecodeCb σ}

theorem sprotoDecode_leaves (hcb : Returns cb) (st : SprotoType) (ud : σ) (pre msg : Bytes)
    (hbuf : (pre ++ msg).length < 2 ^ 31) :
    Leaves cb msg.length (Message.reading st msg)
      (sprotoDecode (watch pre.length (pre ++ msg).length cb) (pre ++ msg) st pre.length msg.length ud) := by
  have hlen : (pre ++ msg).length = pre.length + msg.length := List.length_append
  have h2 : SIZEOF_HEADER = 2 := rfl
  unfold sprotoDecode Message.reading
  by_cases hshort : msg.length < SIZEOF_HEADER
  · rw [if_pos hshort, if_pos (by omega)]
    exact ⟨none, rfl, by simp⟩
  have hread : toword (pre ++ msg) pre.length = .ok (Endian.ofLe (msg.take SIZEOF_HEADER)) := by
    rw [toword, readLe, if_pos (by omega), List.drop_left]
    rfl
  rw [if_neg hshort, if_neg (show ¬ (msg.length : Int) < SIZEOF_HEADER by omega), hread]
  simp only [bind, Except.bind, List.length_drop]
  generalize Endian.ofLe (msg.take SIZEOF_HEADER) = fn
  by_cases hroom : msg.length - SIZEOF_HEADER < fn * SIZEOF_FIELD
  · rw [if_pos hroom, if_pos (by omega)]
    exact ⟨none, rfl, by simp⟩
  have hfields := decodeFields_leaves hcb hbuf st fn (-1) ud
    (show pre.length ≤ pre.length + (SIZEOF_HEADER + fn * SIZEOF_FIELD) by omega)
    (show pre.length + SIZEOF_HEADER + fn * SIZEOF_FIELD ≤ (pre ++ msg).length by omega)
    (show pre.length + (SIZEOF_HEADER + fn * SIZEOF_FIELD) + (msg.length - SIZEOF_HEADER - fn * SIZEOF_FIELD) =
      (pre ++ msg).length by omega)
  rw [List.drop_length_add_append, List.drop_length_add_append] at hfields
  rw [if_neg hroom, if_neg (show ¬ (msg.length : Int) - SIZEOF_HEADER < fn * SIZEOF_FIELD by omega), List.drop_drop,
    Nat.add_assoc, show (msg.length : Int) - SIZEOF_HEADER - fn * SIZEOF_FIELD =
      (msg.length - SIZEOF_HEADER - fn * SIZEOF_FIELD : Nat) by omega]
  revert hfields
  generalize Message.fields st fn (msg.drop SIZEOF_HEADER) (-1) (msg.drop (SIZEOF_HEADER + fn * SIZEOF_FIELD)) = o
  intro hfields
  cases o with
  | overread =>
    intro hacc
    rw [hfields hacc]
  | whole | refused =>
    obtain ⟨r, hr, hleft⟩ := hfields
    rw [hr]
    refine ⟨_, rfl, ?_⟩
    intro p hp
    obtain ⟨q, hq, rfl⟩ := Option.map_eq_some_iff.mp hp
    have := hleft q hq
    simp only
    omega

end Decode

/-- A message is handled as it should be, with every callback, exactly where the length that wraps around is not used: it
is not the length of a string or a struct, of an array of booleans, or of an array of integers whose width is not there
or is 4, with `2 ^ 30 - 1` integers. -/
theorem decode_checked_iff (st : SprotoType) {msg : Bytes} (hmsg : msg.length < 2 ^ 31) :
    Checked st msg ↔ Message.reading st msg ≠ .overread := by
  constructor
  · intro h hover
    have hacc : Accepts fun (_ : DecodeArg) (u : Unit) => .ok (0, u) := fun _ u => ⟨u, rfl⟩
    have hcb : Returns fun (_ : DecodeArg) (u : Unit) => .ok (0, u) := fun _ u => ⟨(0, u), rfl⟩
    obtain ⟨r, hr, -⟩ := h Unit _ () [] hcb (by simpa using hmsg)
    have hleaves := sprotoDecode_leaves hcb st () [] msg (by simpa using hmsg)
    rw [hover] at hleaves
    rw [hleaves hacc] at hr
    cases hr
  · intro hover σ cb ud pre hcb hbuf
    have hleaves := sprotoDecode_leaves hcb st ud pre msg hbuf
    cases hread : Message.reading st msg with
    | overread => exact absurd hread hover
    | whole | refused =>
      rw [hread] at hleaves
      exact hleaves

/-- A type with a string. -/
def named : SprotoType where
  base := 0
  maxn := 1
  f := [{ tag := 0, type := .string, array := false, name := [110], key := -1 }]

/-- The string of a message, and 4 more bytes than the message has. -/
theorem decode_checked_named :
    Checked named [1, 0, 0, 0, 2, 0, 0, 0, 104, 105] ∧ Checked named [1, 0, 0, 0, 6, 0, 0, 0, 104, 105] :=
  ⟨(decode_checked_iff named (by decide)).mpr (by decide), (decode_checked_iff named (by decide)).mpr (by decide)⟩

/-- The length of a string is `2 ^ 32 - 4`: the callback is told that it has -4 bytes. -/
theorem decode_unchecked : ¬ Checked named [1, 0, 0, 0, 0xfc, 0xff, 0xff, 0xff] := by
  intro h
  obtain ⟨r, hr, -⟩ := h Unit (fun _ u => .ok (0, u)) () [] (fun _ u => ⟨(0, u), rfl⟩) (by decide)
  cases hr

end Sproto
end Skynet
