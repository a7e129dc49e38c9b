import Skynet.Seri.Block
import Skynet.Seri.Table
import Skynet.Seri.Unpack

/-!
# Skynet.Seri.RoundTrip

Unpacking what was packed.

* `Packable d v` : a value of the kinds `luaseri_pack` takes, with tables nested at most `d` deep.
* `Reads rd bs v` : where the bytes `bs` come next, `rd` takes them and gives a value like `v`.
* `seri_roundtrip` : a list whose packed form is shorter than `2 ^ 31` bytes is unpacked to values
  built alike, however Lua splits its tables into array and hash parts.
-/

namespace Skynet
namespace Seri

open Lua

/-- The values of the round trip. A table has distinct keys that are keys, no nil values, and a border
that is not negative as an `int`. -/
inductive Packable (rawlen : Entries → Nat) : Nat → Value → Prop
  | nil {d : Nat} : Packable rawlen d .nil
  | boolean {d : Nat} (b : Bool) : Packable rawlen d (.boolean b)
  | integer {d : Nat} (v : BitVec 64) : Packable rawlen d (.integer v)
  | number {d : Nat} (bits : BitVec 64) : Packable rawlen d (.number bits)
  | string {d : Nat} {s : Bytes} (hs : s.length < 2 ^ 31) : Packable rawlen d (.string s)
  | lightuserdata {d : Nat} (p : BitVec 64) : Packable rawlen d (.lightuserdata p)
  | table {d : Nat} {es : Entries} (hkey : ∀ p ∈ es, KeyOk p.1) (hval : ∀ p ∈ es, p.2.isNil = false)
      (hdist : Distinct es) (hlen : 0 ≤ toInt32 (rawlen es)) (hk : ∀ p ∈ es, Packable rawlen d p.1)
      (hv : ∀ p ∈ es, Packable rawlen d p.2) : Packable rawlen (d + 1) (.table es)

/-! ### Reading at the cursor -/

/-- The cursor is in the buffer, in front of `bs`, and `bs` is all that is left. -/
structure At (rb : ReadBlock) (bs : Bytes) : Prop where
  ptr : 0 ≤ rb.ptr
  rest : rb.buffer.drop rb.ptr.toNat = bs
  total : rb.ptr + bs.length = rb.buffer.length
  len : rb.len = bs.length

theorem readBytes_at {rb : ReadBlock} {xs ys : Bytes} (h : At rb (xs ++ ys)) :
    ∃ rb', readBytes rb xs.length = .ok (xs, rb') ∧ At rb' ys := by
  have hlen := h.len
  have htot := h.total
  have hptr := h.ptr
  rw [List.length_append] at hlen htot
  refine ⟨{ rb with ptr := rb.ptr + xs.length, len := rb.len - xs.length }, ?_, ?_, ?_, ?_, ?_⟩
  · have hread : rbRead rb xs.length =
        some (rb.ptr, { rb with ptr := rb.ptr + xs.length, len := rb.len - xs.length }) := by
      rw [rbRead, if_neg (by omega)]
    have hbytes : bytesAt rb.buffer rb.ptr xs.length = .ok xs := by
      rw [bytesAt, if_pos (by omega), h.rest, Int.toNat_natCast, List.take_left]
    rw [readBytes, hread]
    simp only [hbytes]
    rfl
  · simp only; omega
  · have hto : (rb.ptr + xs.length).toNat = rb.ptr.toNat + xs.length := by omega
    simp only [hto]
    rw [← List.drop_drop, h.rest, List.drop_left]
  · simp only; push_cast at htot ⊢; omega
  · simp only; push_cast at hlen ⊢; omega

theorem readNat_at {rb : ReadBlock} {k n : Nat} {ys : Bytes} (h : At rb (Endian.le k n ++ ys)) :
    ∃ rb', readNat rb k = .ok (n % 256 ^ k, rb') ∧ At rb' ys := by
  obtain ⟨rb', hr, hat⟩ := readBytes_at h
  rw [Endian.le_length] at hr
  refine ⟨rb', ?_, hat⟩
  rw [readNat, hr]
  simp only [bind, Except.bind, Endian.ofLe_le]

/-- The type byte and its two parts. -/
theorem combineType_parts : ∀ t < 8, ∀ c < 32,
    (t ||| c <<< 3) < 256 ∧ (t ||| c <<< 3) &&& 7 = t ∧ (t ||| c <<< 3) >>> 3 = c := by decide

theorem combineType_at {rb : ReadBlock} {t c : Nat} {ys : Bytes} (ht : t < 8) (hc : c < 32)
    (h : At rb (combineType t c ++ ys)) :
    ∃ n rb', readNat rb 1 = .ok (n, rb') ∧ n &&& 7 = t ∧ n >>> 3 = c ∧ At rb' ys := by
  obtain ⟨hlt, h7, h3⟩ := combineType_parts t ht c hc
  obtain ⟨rb', hr, hat⟩ := readNat_at (k := 1) (n := t ||| c <<< 3) h
  rw [Nat.mod_eq_of_lt (by simpa using hlt)] at hr
  exact ⟨_, rb', hr, h7, h3, hat⟩

/-- Where the bytes `bs` come next, `rd` takes them and gives a value like `v`. -/
def Reads (rd : ReadBlock → Except SeriError (Value × ReadBlock)) (bs : Bytes) (v : Value) : Prop :=
  ∀ rb rest, At rb (bs ++ rest) → ∃ v' rb', rd rb = .ok (v', rb') ∧ At rb' rest ∧ Same v v'

/-- A type byte and its payload, read as a value. -/
theorem unpackOne_reads {k t c : Nat} {payload : Bytes} {v : Value} (ht : t < 8) (hc : c < 32)
    (h : Reads (fun rb => pushValue (unpackOne k) rb t c) payload v) :
    Reads (unpackOne (k + 1)) (combineType t c ++ payload) v := by
  intro rb rest hat
  rw [List.append_assoc] at hat
  obtain ⟨n, rb', hr, h7, h3, hat'⟩ := combineType_at ht hc hat
  obtain ⟨v', rb'', hv, hat'', hsame⟩ := h rb' rest hat'
  refine ⟨v', rb'', ?_, hat'', hsame⟩
  rw [unpackOne, hr]
  simp only [bind, Except.bind, h7, h3]
  exact hv

/-! ### Scalars -/

section Scalars

variable {one : ReadBlock → Except SeriError (Value × ReadBlock)}

/-- The bytes of an integer and what `get_integer` makes of them. -/
structure IntegerSpec (v : BitVec 64) (c : Nat) (payload : Bytes) : Prop where
  bytes : (wbInteger v).flatten = combineType TYPE_NUMBER c ++ payload
  cookie : c < 32
  notReal : c ≠ TYPE_NUMBER_REAL
  reads : ∀ rb rest, At rb (payload ++ rest) → ∃ rb', getInteger rb c = .ok (v, rb') ∧ At rb' rest

/-- A cookie whose integer is the `f` of a number of `k` bytes. -/
theorem getInteger_at {v : BitVec 64} {c k : Nat} {f : Nat → BitVec 64}
    (hget : ∀ rb, getInteger rb c = (readNat rb k).bind fun (n, rb) => .ok (f n, rb))
    (hf : f (v.toNat % 256 ^ k) = v) (rb : ReadBlock) (rest : Bytes) (h : At rb (Endian.le k v.toNat ++ rest)) :
    ∃ rb', getInteger rb c = .ok (v, rb') ∧ At rb' rest := by
  obtain ⟨rb', hr, hat⟩ := readNat_at h
  exact ⟨rb', by rw [hget, hr]; simp only [Except.bind, hf], hat⟩

/-- An integer of 32 bits is read back from its low four bytes. -/
theorem ofInt_toInt32 {v : BitVec 64} (h : v.toInt = toInt32 v.toInt) :
    BitVec.ofInt 64 (toInt32 (v.toNat % 256 ^ 4 : Nat)) = v := by
  have hlow : toInt32 (v.toNat % 256 ^ 4 : Nat) = toInt32 v.toInt := by
    rw [BitVec.toInt_eq_toNat_bmod]
    unfold toInt32
    rw [Int.bmod_bmod_of_dvd (by decide), Int.natCast_emod]
    exact Int.emod_bmod ..
  rw [hlow, ← h, BitVec.ofInt_toInt]

theorem toNat_of_toInt_nonneg {v : BitVec 64} (h : 0 ≤ v.toInt) : (v.toNat : Int) = v.toInt := by
  rw [BitVec.toInt_eq_toNat_cond] at h ⊢
  have := v.isLt
  split at h <;> split <;> omega

theorem wbInteger_spec (v : BitVec 64) : ∃ c payload, IntegerSpec v c payload := by
  -- the widths that hold a non-negative integer in full
  have hwide : ∀ k, v.toNat < 256 ^ k → BitVec.ofNat 64 (v.toNat % 256 ^ k) = v := by
    intro k hk
    rw [Nat.mod_eq_of_lt hk, BitVec.ofNat_toNat, BitVec.setWidth_eq]
  by_cases h0 : v.toInt = 0
  · refine ⟨TYPE_NUMBER_ZERO, [], ?_, by decide, by decide, ?_⟩
    · rw [wbInteger, if_pos h0]; rfl
    · intro rb rest hat
      have hv : v = 0 := BitVec.eq_of_toInt_eq (by rw [h0]; rfl)
      exact ⟨rb, by rw [hv]; rfl, hat⟩
  by_cases hq : v.toInt ≠ toInt32 v.toInt
  · refine ⟨TYPE_NUMBER_QWORD, Endian.le 8 v.toNat, ?_, by decide, by decide, ?_⟩
    · rw [wbInteger, if_neg h0, if_pos hq]; simp
    · exact getInteger_at (fun _ => rfl) (hwide 8 (by have := v.isLt; omega))
  rw [not_not] at hq
  have hdword : ∀ rb rest, At rb (Endian.le 4 v.toNat ++ rest) →
      ∃ rb', getInteger rb TYPE_NUMBER_DWORD = .ok (v, rb') ∧ At rb' rest :=
    getInteger_at (f := fun n => BitVec.ofInt 64 (toInt32 n)) (fun _ => rfl) (ofInt_toInt32 hq)
  by_cases hneg : v.toInt < 0
  · refine ⟨TYPE_NUMBER_DWORD, Endian.le 4 v.toNat, ?_, by decide, by decide, hdword⟩
    rw [wbInteger, if_neg h0, if_neg (not_not.mpr hq), if_pos hneg]; simp
  have hnat := toNat_of_toInt_nonneg (v := v) (by omega)
  by_cases hbyte : v.toInt < 0x100
  · refine ⟨TYPE_NUMBER_BYTE, Endian.le 1 v.toNat, ?_, by decide, by decide, ?_⟩
    · rw [wbInteger, if_neg h0, if_neg (not_not.mpr hq), if_neg hneg, if_pos hbyte]; simp
    · exact getInteger_at (fun _ => rfl) (hwide 1 (by omega))
  by_cases hword : v.toInt < 0x10000
  · refine ⟨TYPE_NUMBER_WORD, Endian.le 2 v.toNat, ?_, by decide, by decide, ?_⟩
    · rw [wbInteger, if_neg h0, if_neg (not_not.mpr hq), if_neg hneg, if_neg hbyte, if_pos hword]; simp
    · exact getInteger_at (fun _ => rfl) (hwide 2 (by omega))
  · refine ⟨TYPE_NUMBER_DWORD, Endian.le 4 v.toNat, ?_, by decide, by decide, hdword⟩
    rw [wbInteger, if_neg h0, if_neg (not_not.mpr hq), if_neg hneg, if_neg hbyte, if_neg hword]; simp

theorem integer_reads {v : BitVec 64} {c : Nat} {payload : Bytes} (h : IntegerSpec v c payload) :
    Reads (fun rb => pushValue one rb TYPE_NUMBER c) payload (.integer v) := by
  intro rb rest hat
  obtain ⟨rb', hr, hat'⟩ := h.reads rb rest hat
  refine ⟨.integer v, rb', ?_, hat', .integer v⟩
  simp only [pushValue]
  rw [if_neg (by decide), if_neg (by decide), if_pos trivial, if_neg h.notReal, hr]
  rfl

/-- Values of eight bytes behind the type byte. -/
theorem word_reads {t c : Nat} {w : BitVec 64} {mk : BitVec 64 → Value} (hsame : ∀ w, Same (mk w) (mk w))
    (hpush : ∀ rb, pushValue one rb t c = (readNat rb 8).bind fun (n, rb) => .ok (mk (BitVec.ofNat 64 n), rb)) :
    Reads (fun rb => pushValue one rb t c) (Endian.le 8 w.toNat) (mk w) := by
  intro rb rest hat
  obtain ⟨rb', hr, hat'⟩ := readNat_at hat
  have hw : BitVec.ofNat 64 (w.toNat % 256 ^ 8) = w := by
    rw [Nat.mod_eq_of_lt (by have := w.isLt; omega), BitVec.ofNat_toNat, BitVec.setWidth_eq]
  refine ⟨mk w, rb', ?_, hat', hsame w⟩
  change pushValue one rb t c = _
  rw [hpush, hr]
  simp only [Except.bind, hw]

theorem getBuffer_at {rb : ReadBlock} {s rest : Bytes} (hs : s.length < 2 ^ 31) (h : At rb (s ++ rest)) :
    ∃ rb', getBuffer rb s.length = .ok (.string s, rb') ∧ At rb' rest := by
  obtain ⟨rb', hr, hat⟩ := readBytes_at h
  exact ⟨rb', by rw [getBuffer, toInt32_of_lt hs, hr]; rfl, hat⟩

theorem pushValue_short (rb : ReadBlock) (n : Nat) : pushValue one rb TYPE_SHORT_STRING n = getBuffer rb n := rfl

theorem pushValue_long2 (rb : ReadBlock) : pushValue one rb TYPE_LONG_STRING 2 =
    (readNat rb 2).bind fun x => getBuffer x.2 x.1 := rfl

theorem pushValue_long4 (rb : ReadBlock) : pushValue one rb TYPE_LONG_STRING 4 =
    (readNat rb 4).bind fun x => getBuffer x.2 x.1 := rfl

/-- A long string has its length in `k` bytes, announced by the cookie `k`. -/
theorem long_reads {s : Bytes} (hs : s.length < 2 ^ 31) {k : Nat} (hk : s.length < 256 ^ k)
    (hpush : ∀ rb, pushValue one rb TYPE_LONG_STRING k = (readNat rb k).bind fun x => getBuffer x.2 x.1) :
    Reads (fun rb => pushValue one rb TYPE_LONG_STRING k) (Endian.le k s.length ++ s) (.string s) := by
  intro rb rest hat
  rw [List.append_assoc] at hat
  obtain ⟨rb', hr, hat'⟩ := readNat_at hat
  obtain ⟨rb'', hr', hat''⟩ := getBuffer_at hs hat'
  refine ⟨.string s, rb'', ?_, hat'', .string s⟩
  change pushValue one rb TYPE_LONG_STRING k = _
  rw [hpush, hr, Except.bind, Nat.mod_eq_of_lt hk, hr']

/-- The three encodings of a string. -/
theorem wbString_spec {s : Bytes} (hs : s.length < 2 ^ 31) : ∃ t c payload, t < 8 ∧ c < 32 ∧
    (wbString s).flatten = combineType t c ++ payload ∧
    ∀ one, Reads (fun rb => pushValue one rb t c) payload (.string s) := by
  simp only [wbString, toInt32_of_lt hs, Int.toNat_natCast, List.take_length]
  split
  · rename_i hshort
    have hc : s.length < 32 := by have : MAX_COOKIE = 32 := rfl; omega
    have hmod : toUint32 s.length = s.length := by unfold toUint32; omega
    refine ⟨TYPE_SHORT_STRING, s.length, s, by decide, hc, ?_, ?_⟩
    · rw [hmod, List.flatten_cons]
      split
      · simp
      · rename_i h0
        have hnil : s = [] := List.eq_nil_of_length_eq_zero (by omega)
        rw [hnil, List.flatten_nil]
    · intro one rb rest hat
      obtain ⟨rb', hr, hat'⟩ := getBuffer_at hs hat
      exact ⟨.string s, rb', (pushValue_short rb s.length).trans hr, hat', .string s⟩
  split
  · rename_i hmid
    exact ⟨TYPE_LONG_STRING, 2, Endian.le 2 s.length ++ s, by decide, by decide, by simp,
      fun _ => long_reads hs (by omega) pushValue_long2⟩
  · exact ⟨TYPE_LONG_STRING, 4, Endian.le 4 s.length ++ s, by decide, by decide, by simp,
      fun _ => long_reads hs (by omega) pushValue_long4⟩

end Scalars

/-! ### Tables, part by part -/

/-- The size of the array part, in the type byte or behind it. -/
theorem tableHeader_spec {n : Nat} (hn : n < 2 ^ 31) : ∃ c payload, c < 32 ∧
    (tableHeader n).flatten = combineType TYPE_TABLE c ++ payload ∧
    ∀ rb rest, At rb (payload ++ rest) → ∃ rb', arraySize rb c = .ok ((n : Int), rb') ∧ At rb' rest := by
  have hmax : MAX_COOKIE = 32 := rfl
  unfold tableHeader
  split
  · obtain ⟨ci, payload, h⟩ := wbInteger_spec (BitVec.ofInt 64 n)
    refine ⟨MAX_COOKIE - 1, combineType TYPE_NUMBER ci ++ payload, by decide, by rw [List.flatten_cons, h.bytes], ?_⟩
    intro rb rest hat
    rw [List.append_assoc] at hat
    obtain ⟨t, rb', hr, h7, h3, hat'⟩ := combineType_at (by decide) h.cookie hat
    obtain ⟨rb'', hg, hat''⟩ := h.reads rb' rest hat'
    have hn64 : (BitVec.ofInt 64 n).toInt = n := by
      rw [BitVec.toInt_ofInt, Int.bmod_eq_of_le] <;> omega
    refine ⟨rb'', ?_, hat''⟩
    rw [arraySize, if_pos rfl, hr]
    simp only [bind, Except.bind, h7, h3, hg, hn64, toInt32_of_lt hn]
    rw [if_neg (by simp [h.notReal])]
  · rename_i hlt
    have hu : toUint32 n = n := by unfold toUint32; omega
    refine ⟨n, [], by omega, by simp [hu], ?_⟩
    intro rb rest hat
    exact ⟨rb, by rw [arraySize, if_neg (by omega)], hat⟩

/-- A value packed by `one` is read by `rd`, if it has at most `k` bytes. -/
def ElemReads (one : Value → Except SeriError (List Bytes))
    (rd : ReadBlock → Except SeriError (Value × ReadBlock)) (k : Nat) (v : Value) : Prop :=
  ∀ ps, one v = .ok ps → 0 < ps.flatten.length ∧ (ps.flatten.length ≤ k → Reads rd ps.flatten v)

section Parts

variable {one : Value → Except SeriError (List Bytes)}
variable {rd : ReadBlock → Except SeriError (Value × ReadBlock)} {k : Nat}

theorem packSeq_cons {v : Value} {vs : List Value} {ps : List Bytes} (h : packSeq one (v :: vs) = .ok ps) :
    ∃ a b, one v = .ok a ∧ packSeq one vs = .ok b ∧ ps = a ++ b := by
  simp only [packSeq, bind, Except.bind] at h
  cases ha : one v with
  | error e => rw [ha] at h; cases h
  | ok a =>
    rw [ha] at h
    cases hb : packSeq one vs with
    | error e => simp only [hb] at h; cases h
    | ok b => simp only [hb] at h; cases h; exact ⟨a, b, rfl, rfl, rfl⟩

/-- The array part of a table is read value by value. -/
theorem readArray_spec {vs : List Value} {ps : List Bytes} (hp : packSeq one vs = .ok ps)
    (hel : ∀ v ∈ vs, ElemReads one rd k v) (hk : ps.flatten.length ≤ k) (i : Nat) (t : Entries)
    {rb : ReadBlock} {rest : Bytes} (hat : At rb (ps.flatten ++ rest)) :
    ∃ vs' rb', readArray rd vs.length i t rb = .ok (setArray i t vs', rb') ∧ At rb' rest ∧
      List.Forall₂ Same vs vs' := by
  induction vs generalizing ps i t rb with
  | nil =>
    cases hp
    exact ⟨[], rb, rfl, hat, .nil⟩
  | cons v vs ih =>
    obtain ⟨a, b, ha, hb, rfl⟩ := packSeq_cons hp
    rw [List.flatten_append, List.length_append] at hk
    rw [List.flatten_append, List.append_assoc] at hat
    obtain ⟨v', rb', hv, hat', hsame⟩ := (hel v (List.mem_cons_self ..) a ha).2 (by omega) rb _ hat
    obtain ⟨vs', rb'', hvs, hat'', hsames⟩ := ih hb (fun x hx => hel x (List.mem_cons_of_mem _ hx)) (by omega)
      (i + 1) (rawseti t i v') hat'
    refine ⟨v' :: vs', rb'', ?_, hat'', .cons hsame hsames⟩
    rw [List.length_cons, readArray, hv]
    simp only [bind, Except.bind, hvs, setArray]

/-- The pairs of the hash part are read up to the nil that ends them. -/
theorem readHash_spec (hnil : Reads rd (combineType TYPE_NIL 0) .nil) {es : Entries} {ps : List Bytes}
    (hp : packSeq one (es.flatMap fun p => [p.1, p.2]) = .ok ps)
    (hel : ∀ p ∈ es, ElemReads one rd k p.1 ∧ ElemReads one rd k p.2) (hk : ps.flatten.length ≤ k)
    (hkey : ∀ p ∈ es, KeyOk p.1) (hval : ∀ p ∈ es, p.2.isNil = false)
    (hdist : Distinct es) {t : Entries}
    (hfresh : ∀ p ∈ t, ∀ q ∈ es, p.1.sameKey q.1 = false) {fuel : Nat} (hfuel : es.length < fuel)
    {rb : ReadBlock} {rest : Bytes} (hat : At rb (ps.flatten ++ (combineType TYPE_NIL 0 ++ rest))) :
    ∃ es' rb', readHash rd fuel t rb = .ok (t ++ es', rb') ∧ At rb' rest ∧ List.Forall₂ SamePair es es' := by
  induction es generalizing ps t fuel rb with
  | nil =>
    cases hp
    obtain ⟨v', rb', hv, hat', hsame⟩ := hnil rb rest hat
    cases hsame
    cases fuel with
    | zero => omega
    | succ fuel =>
      refine ⟨[], rb', ?_, hat', .nil⟩
      rw [readHash, hv, List.append_nil]
      rfl
  | cons e es ih =>
    obtain ⟨key, val⟩ := e
    obtain ⟨a, b', ha, hp', rfl⟩ := packSeq_cons hp
    obtain ⟨b, c, hb, hc, rfl⟩ := packSeq_cons hp'
    simp only [List.flatten_append, List.length_append] at hk
    simp only [List.flatten_append, List.append_assoc] at hat
    obtain ⟨helk, helv⟩ := hel _ (List.mem_cons_self ..)
    have hkok : KeyOk key := hkey _ (List.mem_cons_self ..)
    obtain ⟨key', rb₁, hr₁, hat₁, hsk⟩ := (helk a ha).2 (by omega) rb _ hat
    obtain ⟨val', rb₂, hr₂, hat₂, hsv⟩ := (helv b hb).2 (by omega) rb₁ _ hat₁
    have hknil : key'.isNil = false := by
      rw [hsk.isNil_eq]
      cases key with
      | nil => cases hkok
      | _ => rfl
    have hvnil : val'.isNil = false := by rw [hsv.isNil_eq]; exact hval _ (List.mem_cons_self ..)
    have hset : rawset t key' val' = some (t ++ [(key', val')]) := by
      rw [rawset, hsk.keyOk hkok, Option.map_some, setKey_fresh, if_neg (by rw [hvnil]; decide)]
      intro p hpt
      rw [sameKey_right hsk]
      exact hfresh p hpt _ (List.mem_cons_self ..)
    obtain ⟨hhead, htail⟩ := List.pairwise_cons.mp hdist
    have hfresh' : ∀ p ∈ t ++ [(key', val')], ∀ q ∈ es, p.1.sameKey q.1 = false := by
      intro p hpt q hq
      rcases List.mem_append.mp hpt with hpt | hpt
      · exact hfresh p hpt q (List.mem_cons_of_mem _ hq)
      · rw [List.mem_singleton.mp hpt, sameKey_left hsk]
        exact hhead q hq
    cases fuel with
    | zero => omega
    | succ fuel =>
      obtain ⟨es', rb₃, hr₃, hat₃, hsame⟩ := ih hc (fun p hp => hel p (List.mem_cons_of_mem _ hp)) (by omega)
        (fun p hp => hkey p (List.mem_cons_of_mem _ hp)) (fun p hp => hval p (List.mem_cons_of_mem _ hp))
        htail hfresh' (show es.length < fuel by simpa using hfuel) hat₂
      refine ⟨(key', val') :: es', rb₃, ?_, hat₃, .cons ⟨hsk, hsv⟩ hsame⟩
      rw [readHash, hr₁]
      simp only [bind, Except.bind, hknil, Bool.false_eq_true, if_false, hr₂, hset, hr₃, List.append_assoc,
        List.cons_append, List.nil_append]

theorem packSeq_ok {vs : List Value} (h : ∀ v ∈ vs, ∃ a, one v = .ok a) : ∃ ps, packSeq one vs = .ok ps := by
  induction vs with
  | nil => exact ⟨[], rfl⟩
  | cons v vs ih =>
    obtain ⟨a, ha⟩ := h v (List.mem_cons_self ..)
    obtain ⟨b, hb⟩ := ih fun w hw => h w (List.mem_cons_of_mem _ hw)
    exact ⟨a ++ b, by simp only [packSeq, ha, hb, bind, Except.bind]⟩

theorem packSeq_length {vs : List Value} {ps : List Bytes} (hp : packSeq one vs = .ok ps)
    (hel : ∀ v ∈ vs, ∀ a, one v = .ok a → 0 < a.flatten.length) : vs.length ≤ ps.flatten.length := by
  induction vs generalizing ps with
  | nil => exact Nat.zero_le _
  | cons v vs ih =>
    obtain ⟨a, b, ha, hb, rfl⟩ := packSeq_cons hp
    have hpos := hel v (List.mem_cons_self ..) a ha
    have := ih hb fun w hw => hel w (List.mem_cons_of_mem _ hw)
    rw [List.flatten_append, List.length_append, List.length_cons]
    omega

theorem wbTableParts_ok {es : Entries} {n : Nat} {ps : List Bytes} (h : wbTableParts one es n = .ok ps) :
    ∃ array hash, packSeq one (arrayValues es n) = .ok array ∧
      packSeq one ((es.filter fun p => !inArray n p.1).flatMap fun p => [p.1, p.2]) = .ok hash ∧
      ps = tableHeader n ++ array ++ hash ++ wbNil := by
  simp only [wbTableParts, wbTableArray, wbTableHash, Int.toNat_natCast, bind, Except.bind] at h
  rw [← arrayValues] at h
  cases harray : packSeq one (arrayValues es n) with
  | error e => rw [harray] at h; cases h
  | ok array =>
    simp only [harray] at h
    cases hhash : packSeq one ((es.filter fun p => !inArray n p.1).flatMap fun p => [p.1, p.2]) with
    | error e => simp only [hhash] at h; cases h
    | ok hash =>
      simp only [hhash] at h
      cases h
      exact ⟨array, hash, rfl, rfl, by simp only [List.append_assoc]⟩

end Parts

/-! ### Values -/

/-- The bytes of a value: a type byte, and a payload that `push_value` reads. -/
def Encodes (ps : List Bytes) (v : Value) : Prop :=
  ∃ t c payload, t < 8 ∧ c < 32 ∧ ps.flatten = combineType t c ++ payload ∧
    ∀ k, payload.length ≤ k → Reads (fun rb => pushValue (unpackOne k) rb t c) payload v

theorem Encodes.pos {ps : List Bytes} {v : Value} (h : Encodes ps v) : 0 < ps.flatten.length := by
  obtain ⟨t, c, payload, -, -, hps, -⟩ := h
  rw [hps, List.length_append]
  exact Nat.lt_of_lt_of_le Nat.one_pos (Nat.le_add_right _ _)

theorem Encodes.reads {ps : List Bytes} {v : Value} (h : Encodes ps v) {k : Nat} (hk : ps.flatten.length ≤ k) :
    Reads (unpackOne k) ps.flatten v := by
  obtain ⟨t, c, payload, ht, hc, hps, hr⟩ := h
  have hlen : ps.flatten.length = payload.length + 1 := by rw [hps]; simp [combineType]
  obtain ⟨k', rfl⟩ : ∃ k', k = k' + 1 := ⟨k - 1, by omega⟩
  rw [hps]
  exact unpackOne_reads ht hc (hr k' (by omega))

theorem nil_encodes : Encodes wbNil .nil :=
  ⟨TYPE_NIL, 0, [], by decide, by decide, rfl, fun _ _ rb _ hat => ⟨.nil, rb, rfl, hat, .nil⟩⟩

theorem boolean_encodes (b : Bool) : Encodes (wbBoolean b) (.boolean b) := by
  refine ⟨TYPE_BOOLEAN, if b then 1 else 0, [], by decide, by cases b <;> decide, by simp [wbBoolean], ?_⟩
  intro k _ rb rest hat
  exact ⟨.boolean b, rb, by cases b <;> rfl, hat, .boolean b⟩

/-- The values `wb_table_array` packs are nil or values of the table. -/
theorem arrayValues_mem {es : Entries} {n : Nat} {v : Value} (h : v ∈ arrayValues es n) :
    v = .nil ∨ ∃ p ∈ es, p.2 = v := by
  obtain ⟨i, -, rfl⟩ := List.mem_map.mp h
  cases hnil : (rawgeti es (i + 1)).isNil with
  | false => exact .inr ⟨_, mem_of_rawget hnil, rfl⟩
  | true => exact .inl (eq_nil_of_isNil hnil)

theorem table_encodes {rawlen : Entries → Nat} {left : Nat} {es : Entries} {ps : List Bytes}
    (hkey : ∀ p ∈ es, KeyOk p.1) (hval : ∀ p ∈ es, p.2.isNil = false) (hdist : Distinct es)
    {n : Nat} (hlen : n < 2 ^ 31) (hk : ∀ p ∈ es, ∀ ps, packOne rawlen left p.1 = .ok ps → Encodes ps p.1)
    (hv : ∀ p ∈ es, ∀ ps, packOne rawlen left p.2 = .ok ps → Encodes ps p.2)
    (hnil : ∀ ps, packOne rawlen left .nil = .ok ps → Encodes ps .nil)
    (h : wbTableParts (packOne rawlen left) es n = .ok ps) : Encodes ps (.table es) := by
  obtain ⟨array, hash, harray, hhash, rfl⟩ := wbTableParts_ok h
  obtain ⟨c, size, hc, hheader, hsize⟩ := tableHeader_spec hlen
  refine ⟨TYPE_TABLE, c, size ++ (array.flatten ++ (hash.flatten ++ combineType TYPE_NIL 0)), by decide, hc, ?_, ?_⟩
  · simp [hheader, wbNil]
  intro k hbytes rb rest hat
  have hone : (combineType TYPE_NIL 0).length = 1 := rfl
  simp only [List.length_append, hone] at hbytes
  simp only [List.append_assoc] at hat
  have helem : ∀ v, (∀ ps, packOne rawlen left v = .ok ps → Encodes ps v) →
      ElemReads (packOne rawlen left) (unpackOne k) k v :=
    fun v hv ps hps => ⟨(hv ps hps).pos, fun hle => (hv ps hps).reads hle⟩
  -- the size of the array part, then its values
  obtain ⟨rb₁, hr₁, hat₁⟩ := hsize rb _ hat
  obtain ⟨vs', rb₂, hr₂, hat₂, hsame₂⟩ := readArray_spec harray (by
    intro v hmem
    rcases arrayValues_mem hmem with rfl | ⟨p, hp, rfl⟩
    · exact helem .nil hnil
    · exact helem p.2 (hv p hp)) (by omega) 1 [] hat₁
  have hcount : (arrayValues es n).length = n := by simp [arrayValues]
  rw [hcount] at hr₂
  have hset : setArray 1 [] vs' = arrayEntries 1 vs' := by
    rw [setArray_eq, List.nil_append]
    · rw [← hsame₂.length_eq, hcount]; omega
    · intro p hp; cases hp
  have harr := arrayEntries_same hsame₂ 1
  -- the pairs of the hash part have keys that are not in the array part
  have hsub : ∀ p ∈ es.filter fun p => !inArray n p.1, p ∈ es :=
    fun p hp => (List.mem_filter.mp hp).1
  have hfresh : ∀ p ∈ arrayEntries 1 vs', ∀ q ∈ es.filter fun p => !inArray n p.1,
      p.1.sameKey q.1 = false := by
    intro p hp q hq
    obtain ⟨j, v, hj, -, rfl⟩ := mem_arrayEntries.mp hp
    have hjn : j < n := by
      rw [← hcount, hsame₂.length_eq]; exact (List.getElem?_eq_some_iff.mp hj).1
    have hin : inArray n (intKey (1 + j)) = true :=
      inArray_iff.mpr ⟨_, rfl, by rw [toInt_ofNat_of_lt (by omega)]; omega, by rw [toInt_ofNat_of_lt (by omega)]; omega⟩
    rw [Bool.eq_false_iff]
    intro hsame
    have heq : q.1 = intKey (1 + j) := (eq_of_sameKey hsame).symm
    have hout := (List.mem_filter.mp hq).2
    rw [heq, hin] at hout
    cases hout
  have hel : ∀ p ∈ es.filter fun p => !inArray n p.1,
      ElemReads (packOne rawlen left) (unpackOne k) k p.1 ∧ ElemReads (packOne rawlen left) (unpackOne k) k p.2 :=
    fun p hp => ⟨helem p.1 (hk p (hsub p hp)), helem p.2 (hv p (hsub p hp))⟩
  have hfuel : (es.filter fun p => !inArray n p.1).length < rb₂.len.toNat + 1 := by
    have hpairs := packSeq_length hhash (by
      intro v hmem a ha
      obtain ⟨p, hp, hvp⟩ := List.mem_flatMap.mp hmem
      rcases List.mem_pair.mp hvp with rfl | rfl
      · exact ((hel p hp).1 a ha).1
      · exact ((hel p hp).2 a ha).1)
    have hflat : ∀ l : Entries, (l.flatMap fun p => [p.1, p.2]).length = 2 * l.length := by
      intro l
      induction l with
      | nil => rfl
      | cons p l ih => simp only [List.flatMap_cons, List.length_append, ih, List.length_cons, List.length_nil]; omega
    have hrest := hat₂.len
    rw [hflat] at hpairs
    rw [List.length_append] at hrest
    omega
  obtain ⟨es', rb₃, hr₃, hat₃, hsame₃⟩ := readHash_spec (nil_encodes.reads (show 1 ≤ k by omega)) hhash
    hel (by omega) (fun p hp => hkey p (hsub p hp)) (fun p hp => hval p (hsub p hp)) (hdist.filter _) hfresh hfuel hat₂
  refine ⟨.table (arrayEntries 1 vs' ++ es'), rb₃, ?_, hat₃, ?_⟩
  · change unpackTable (unpackOne k) rb c = _
    rw [unpackTable, hr₁]
    simp only [bind, Except.bind, Int.toNat_natCast, hr₂, hset, hr₃]
  · exact .table (samePairs_of_perm (split_perm hdist hval hlen) (List.rel_append harr hsame₃) (List.Perm.refl _))

theorem border_nat {rawlen : Entries → Nat} {es : Entries} (h : 0 ≤ toInt32 (rawlen es)) :
    ∃ n : Nat, toInt32 (rawlen es) = n ∧ n < 2 ^ 31 := by
  have hlt : toInt32 (rawlen es) < 2 ^ 31 := Int.bmod_lt (by decide)
  exact ⟨(toInt32 (rawlen es)).toNat, by omega, by omega⟩

theorem packOne_left {rawlen : Entries → Nat} {left : Nat} {v : Value} {ps : List Bytes}
    (h : packOne rawlen left v = .ok ps) : ∃ left', left = left' + 1 := by
  cases left with
  | zero => cases h
  | succ left => exact ⟨left, rfl⟩

theorem packOne_nil_encodes {rawlen : Entries → Nat} {left : Nat} {ps : List Bytes}
    (h : packOne rawlen left .nil = .ok ps) : Encodes ps .nil := by
  obtain ⟨left, rfl⟩ := packOne_left h
  cases h
  exact nil_encodes

theorem packOne_encodes {rawlen : Entries → Nat} {d left : Nat} {v : Value} {ps : List Bytes}
    (hv : Packable rawlen d v) (h : packOne rawlen left v = .ok ps) : Encodes ps v := by
  induction hv generalizing left ps with
  | nil => exact packOne_nil_encodes h
  | boolean b =>
    obtain ⟨left, rfl⟩ := packOne_left h
    cases h
    exact boolean_encodes b
  | integer v =>
    obtain ⟨left, rfl⟩ := packOne_left h
    cases h
    obtain ⟨c, payload, hspec⟩ := wbInteger_spec v
    exact ⟨TYPE_NUMBER, c, payload, by decide, hspec.cookie, hspec.bytes, fun _ _ => integer_reads hspec⟩
  | number bits =>
    obtain ⟨left, rfl⟩ := packOne_left h
    cases h
    exact ⟨TYPE_NUMBER, TYPE_NUMBER_REAL, _, by decide, by decide, by simp [wbReal],
      fun _ _ => word_reads .number fun _ => rfl⟩
  | string hs =>
    obtain ⟨left, rfl⟩ := packOne_left h
    rw [packOne, Except.ok.injEq] at h
    subst h
    obtain ⟨t, c, payload, ht, hc, hbytes, hreads⟩ := wbString_spec hs
    exact ⟨t, c, payload, ht, hc, hbytes, fun _ _ => hreads _⟩
  | lightuserdata p =>
    obtain ⟨left, rfl⟩ := packOne_left h
    cases h
    exact ⟨TYPE_USERDATA, 0, _, by decide, by decide, by simp [wbPointer],
      fun _ _ => word_reads .lightuserdata fun _ => rfl⟩
  | table hkey hval hdist hlen _ _ ihk ihv =>
    obtain ⟨left, rfl⟩ := packOne_left h
    obtain ⟨n, hn, hlt⟩ := border_nat hlen
    rw [packOne, wbTable, hn] at h
    exact table_encodes hkey hval hdist hlt (fun p hp ps hps => ihk p hp hps) (fun p hp ps hps => ihv p hp hps)
      (fun _ => packOne_nil_encodes) h

/-- A value within the depth is packed. -/
theorem packOne_ok {rawlen : Entries → Nat} {d left : Nat} {v : Value} (hv : Packable rawlen d v) (hd : d < left) :
    ∃ ps, packOne rawlen left v = .ok ps := by
  induction hv generalizing left with
  | table hkey hval hdist hlen _ _ ihk ihv =>
    rename_i d es _ _
    obtain ⟨n, hn, -⟩ := border_nat hlen
    obtain ⟨left, rfl⟩ : ∃ left', left = left' + 1 := ⟨left - 1, by omega⟩
    have harray : ∀ v ∈ arrayValues es n, ∃ a, packOne rawlen left v = .ok a := by
      intro v hmem
      rcases arrayValues_mem hmem with rfl | ⟨p, hp, rfl⟩
      · obtain ⟨left, rfl⟩ : ∃ left', left = left' + 1 := ⟨left - 1, by omega⟩
        exact ⟨_, rfl⟩
      · exact ihv p hp (by omega)
    have hhash : ∀ v ∈ (es.filter fun p => !inArray n p.1).flatMap fun p => [p.1, p.2],
        ∃ a, packOne rawlen left v = .ok a := by
      intro v hmem
      obtain ⟨p, hp, hvp⟩ := List.mem_flatMap.mp hmem
      have hp := (List.mem_filter.mp hp).1
      rcases List.mem_pair.mp hvp with rfl | rfl
      · exact ihk p hp (by omega)
      · exact ihv p hp (by omega)
    obtain ⟨a, ha⟩ := packSeq_ok harray
    obtain ⟨b, hb⟩ := packSeq_ok hhash
    rw [arrayValues] at ha
    refine ⟨tableHeader n ++ a ++ (b ++ wbNil), ?_⟩
    rw [packOne, wbTable, hn]
    simp only [wbTableParts, wbTableArray, wbTableHash, Int.toNat_natCast, ha, hb, bind, Except.bind]
  | _ =>
    obtain ⟨left, rfl⟩ : ∃ left', left = left' + 1 := ⟨left - 1, by omega⟩
    exact ⟨_, rfl⟩

/-! ### Lists of values -/

theorem rbRead_at {rb : ReadBlock} {bs : Bytes} (h : At rb bs) : rbRead rb 1 = none ↔ bs = [] := by
  have hlen := h.len
  unfold rbRead
  constructor
  · intro hnone
    split at hnone
    · exact List.eq_nil_of_length_eq_zero (by omega)
    · cases hnone
  · rintro rfl
    rw [if_pos (by rw [hlen]; decide)]

theorem unpackLoop_spec {one : Value → Except SeriError (List Bytes)} {vs : List Value} {ps : List Bytes}
    (hp : packSeq one vs = .ok ps) (henc : ∀ v ∈ vs, ∀ a, one v = .ok a → Encodes a v) {fuel : Nat}
    (hfuel : vs.length < fuel) {rb : ReadBlock} (hat : At rb ps.flatten) :
    ∃ vs', unpackLoop fuel rb = .ok vs' ∧ List.Forall₂ Same vs vs' := by
  induction vs generalizing ps fuel rb with
  | nil =>
    cases hp
    cases fuel with
    | zero => omega
    | succ fuel => exact ⟨[], by rw [unpackLoop, (rbRead_at hat).mpr rfl], .nil⟩
  | cons v vs ih =>
    obtain ⟨a, b, ha, hb, rfl⟩ := packSeq_cons hp
    obtain ⟨t, c, payload, ht, hc, hbytes, hreads⟩ := henc v (List.mem_cons_self ..) a ha
    rw [List.flatten_append, hbytes, List.append_assoc] at hat
    have hlen := hat.len
    rw [List.length_append, List.length_append] at hlen
    obtain ⟨n, rb₁, hr₁, h7, h3, hat₁⟩ := combineType_at ht hc hat
    obtain ⟨v', rb₂, hr₂, hat₂, hsame⟩ := hreads rb.len.toNat (by omega) rb₁ _ hat₁
    cases fuel with
    | zero => omega
    | succ fuel =>
      obtain ⟨vs', hr₃, hsames⟩ := ih hb (fun w hw => henc w (List.mem_cons_of_mem _ hw))
        (show vs.length < fuel by simpa using hfuel) hat₂
      refine ⟨v' :: vs', ?_, .cons hsame hsames⟩
      cases hread : rbRead rb 1 with
      | none => exact absurd ((rbRead_at hat).mp hread) (by simp [combineType])
      | some _ =>
        rw [unpackLoop, hread]
        simp only [hr₁, bind, Except.bind, h7, h3, hr₂, hr₃]

/-- The bytes that `luaseri_pack` writes, before they are joined. -/
def packed (rawlen : Entries → Nat) (vs : List Value) : Except SeriError (List Bytes) :=
  packSeq (packOne rawlen (MAX_DEPTH + 1)) vs

/-- What is packed is unpacked to values built alike. -/
def RoundTrips (rawlen : Entries → Nat) (vs : List Value) : Prop :=
  ∃ buffer sz vs', luaseriPack rawlen vs = .ok (some (buffer, sz)) ∧ luaseriUnpack buffer sz = .ok vs' ∧
    List.Forall₂ Same vs vs'

theorem luaseriPack_eq {rawlen : Entries → Nat} {vs : List Value} {ps : List Bytes} (h : packed rawlen vs = .ok ps) :
    luaseriPack rawlen vs = .ok (seri (ps.foldl wbPush wbInit)) := by
  rw [packed] at h
  rw [luaseriPack, h]
  rfl

/-- Values within the depth whose packed form is shorter than `2 ^ 31` bytes come back alike. -/
theorem seri_roundtrip (rawlen : Entries → Nat) (vs : List Value) (hvs : ∀ v ∈ vs, Packable rawlen MAX_DEPTH v)
    (hsize : ∀ ps, packed rawlen vs = .ok ps → ps.flatten.length < 2 ^ 31) : RoundTrips rawlen vs := by
  obtain ⟨ps, hps⟩ : ∃ ps, packed rawlen vs = .ok ps :=
    packSeq_ok fun v hv => packOne_ok (hvs v hv) (Nat.lt_succ_self _)
  have henc : ∀ v ∈ vs, ∀ a, packOne rawlen (MAX_DEPTH + 1) v = .ok a → Encodes a v :=
    fun v hv a ha => packOne_encodes (hvs v hv) ha
  have hcount : vs.length ≤ ps.flatten.length :=
    packSeq_length hps fun v hv a ha => (henc v hv a ha).pos
  have hpack := luaseriPack_eq hps
  rw [seri_contents (hsize ps hps)] at hpack
  by_cases h0 : ps.flatten = []
  · have hnil : vs = [] := List.eq_nil_of_length_eq_zero (by rw [h0] at hcount; exact Nat.le_zero.mp hcount)
    subst hnil
    exact ⟨_, _, [], hpack, by rw [h0]; rfl, .nil⟩
  · have hpos := List.length_pos_iff.mpr h0
    have hat : At { buffer := ps.flatten, len := ps.flatten.length, ptr := 0 } ps.flatten :=
      ⟨by simp, by simp, by simp, by simp⟩
    obtain ⟨vs', hunpack, hsame⟩ := unpackLoop_spec hps henc (show vs.length < ps.flatten.length + 1 by omega) hat
    refine ⟨_, _, vs', hpack, ?_, hsame⟩
    rw [luaseriUnpack, if_neg (by omega), Int.toNat_natCast, hunpack]

/-- Numbers, strings and tables, one of them with a hole, with a border in the middle. -/
theorem seri_roundtrip_hole : RoundTrips (fun es => es.length / 2)
    [.integer 300, .table [(.integer 1, .string [97]), (.string [107], .boolean true), (.integer 3, .table [])]] := by
  refine seri_roundtrip _ _ ?_ ?_
  · intro v hv
    rcases List.mem_pair.mp hv with rfl | rfl
    · exact .integer _
    refine .table ?_ ?_ ?_ (by decide) ?_ ?_
    · simp [KeyOk, newKey]
    · simp [Value.isNil]
    · simp [Distinct, Value.sameKey]
    · intro p hp
      simp only [List.mem_cons, List.not_mem_nil, or_false] at hp
      rcases hp with rfl | rfl | rfl
      · exact .integer _
      · exact .string (by decide)
      · exact .integer _
    · intro p hp
      simp only [List.mem_cons, List.not_mem_nil, or_false] at hp
      rcases hp with rfl | rfl | rfl
      · exact .string (by decide)
      · exact .boolean _
      · exact .table (by simp) (by simp) .nil (by decide) (by simp) (by simp)
  · intro ps hps
    cases hps
    decide

/-! ### Sizes beyond `int` -/

/-- A string with the length in four bytes. -/
theorem wbString_long {s : Bytes} (hs : s.length < 2 ^ 31) (hlong : 0x10000 ≤ s.length) :
    (wbString s).flatten.length = s.length + 5 := by
  have hmax : MAX_COOKIE = 32 := rfl
  simp only [wbString, toInt32_of_lt hs, Int.toNat_natCast, List.take_length]
  rw [if_neg (by omega), if_neg (by omega)]
  simp only [List.flatten_cons, List.flatten_nil, List.append_nil, List.length_append, Endian.le_length]
  simp only [combineType, List.length_singleton]
  omega

theorem seri_negative {pushes : List Bytes} (hlo : 2 ^ 31 ≤ pushes.flatten.length)
    (hhi : pushes.flatten.length < 2 ^ 32) : seri (pushes.foldl wbPush wbInit) = none := by
  obtain ⟨-, hcont, hlen⟩ := foldl_wbPush wbInit_ok wbInit_len pushes
  rw [show wbInit.contents = [] from rfl, List.nil_append] at hcont
  have hneg : toInt32 pushes.flatten.length = (pushes.flatten.length : Int) - 2 ^ 32 := by
    unfold toInt32
    rw [← Int.sub_bmod_right, Int.bmod_eq_of_le] <;> omega
  rw [seri, if_pos (by rw [hlen, hcont, hneg]; omega)]

/-- Two pairs; the key of the second can be the border. -/
def sparse : Entries := [(.integer 1, .boolean true), (.integer 0x80000001, .boolean true)]

/-- The border as an `int` is negative and leaves 1 in the type byte: an array of one value is announced
and none is written. -/
theorem sparse_unpacked : luaseriPack (fun _ => 0x80000001) [.table sparse] =
      .ok (some ([14, 10, 1, 9, 50, 1, 0, 0, 128, 0, 0, 0, 0, 9, 0], 15)) ∧
    luaseriUnpack [14, 10, 1, 9, 50, 1, 0, 0, 128, 0, 0, 0, 0, 9, 0] 15 = .error .invalidStream := ⟨rfl, rfl⟩

/-- A string of the greatest length has no packed form, and a table with a border beyond `int` is
not read back. -/
theorem seri_beyond_int :
    (Packable (fun _ => 0) MAX_DEPTH (.string (List.replicate 0x7fffffff 0)) ∧
      ¬RoundTrips (fun _ => 0) [.string (List.replicate 0x7fffffff 0)]) ∧
    ((rawgeti sparse 0x80000001).isNil = false ∧ (rawgeti sparse 0x80000002).isNil = true ∧
      ¬RoundTrips (fun _ => 0x80000001) [.table sparse]) := by
  have hlen : (List.replicate 0x7fffffff (0 : UInt8)).length = 0x7fffffff := List.length_replicate
  refine ⟨⟨.string (by rw [hlen]; decide), ?_⟩, rfl, rfl, ?_⟩
  · rintro ⟨buffer, sz, vs', hpack, -⟩
    generalize List.replicate 0x7fffffff (0 : UInt8) = s at hlen hpack
    have hpacked : packed (fun _ => 0) [.string s] = .ok (wbString s ++ []) := rfl
    have hsize := wbString_long (s := s) (by omega) (by omega)
    rw [luaseriPack_eq hpacked, List.append_nil, seri_negative (by omega) (by omega)] at hpack
    cases hpack
  · rintro ⟨buffer, sz, vs', hpack, hunpack, -⟩
    rw [sparse_unpacked.1] at hpack
    cases hpack
    rw [sparse_unpacked.2] at hunpack
    cases hunpack

end Seri
end Skynet
