import Skynet.Bson.Reading

/-!
# Skynet.Bson.Fields

The values of fields without fields of their own.

* `unpackValue_at` : where the bytes of such a value come next, it is read.
* `unpackValue_reads` : what is read is such a value, and an error is explained.
-/

namespace Skynet
namespace Bson

open Lua
open Seri (toInt32 toUint32)

section Fields

variable {data : Bytes} {dict : Bool → Reader → Except DecodeError (Value × Reader)} {t : Reader} {bs rest : Bytes}

/-! ### The bytes of a value are read -/

theorem readInt64_at {v : BitVec 64} (h : At data t (Endian.le 8 v.toNat ++ rest)) :
    readInt64 data t = .ok (v, t.skip 8) ∧ At data (t.skip 8) rest := by
  refine ⟨?_, by simpa using h.skip⟩
  rw [readInt64, readNat_at (n := 8) h (by simp)]
  simp only [bind, Except.bind, ofNat_ofLe (k := 8) v rfl]
  rfl

theorem readInt32_at {v : BitVec 32} (h : At data t (Endian.le 4 v.toNat ++ rest)) :
    readInt32 data t = .ok (v.toInt, t.skip 4) ∧ At data (t.skip 4) rest := by
  refine ⟨?_, by simpa using h.skip⟩
  have hv : toInt32 v.toNat = v.toInt := by rw [BitVec.toInt_eq_toNat_bmod, toInt32]
  rw [readInt32, readNat_at (n := 4) h (by simp), Endian.ofLe_le_of_lt (by simpa using v.isLt)]
  simp only [bind, Except.bind, hv]
  rfl

/-- A length. -/
theorem readLength_at {n : Nat} (hn : n < 2 ^ 31) (h : At data t (Endian.le 4 n ++ rest)) :
    readInt32 data t = .ok ((n : Int), t.skip 4) ∧ At data (t.skip 4) rest := by
  refine ⟨?_, by simpa using h.skip⟩
  rw [readInt32, readNat_at (n := 4) h (by simp), Endian.ofLe_le_of_lt (by simp; omega)]
  simp only [bind, Except.bind, toInt32_of_lt hn]
  rfl

theorem At.length_lt {r : Reader} (h : At data r bs) (hdata : data.length < 2 ^ 31) : bs.length < 2 ^ 31 := by
  have hptr := h.ptr
  have hbound := h.bound
  omega

theorem skip_skip (r : Reader) (m n : Int) : (r.skip m).skip n = r.skip (m + n) := by
  simp only [Reader.skip, Reader.mk.injEq]
  omega

theorem int_ok {n : Int} (h₁ : -2 ^ 31 ≤ n) (h₂ : n < 2 ^ 31) : int n = .ok n := by rw [int, if_pos ⟨h₁, h₂⟩]

/-- The three calls for a raw field, of which `T` bytes are kept. -/
theorem raw_at {T : Int} (h : At data t (bs ++ rest)) (hdata : data.length < 2 ^ 31) (hfour : 4 ≤ (bs ++ rest).length)
    (hT : T = bs.length) :
    readInt32 data t = .ok (toInt32 (Endian.ofLe ((bs ++ rest).take 4)), t.skip 4) ∧
      readBytes (t.skip 4) (T - 4) = .ok ((t.skip 4).ptr, t.skip T) ∧ pushlstring data t.ptr T = .ok bs ∧
        At data (t.skip T) rest := by
  have hptr := h.ptr
  have hsize := h.size
  have hbound := h.bound
  rw [List.length_append] at hsize hbound
  have hat : At data t ((bs ++ rest).take 4 ++ (bs ++ rest).drop 4) := by rwa [List.take_append_drop]
  refine ⟨?_, ?_, pushlstring_at h hT, ?_⟩
  · rw [readInt32, readNat_at (n := 4) hat (by rw [List.length_take]; omega)]
    rfl
  · have hcheck : checkReader (t.skip 4) (T - 4) = .ok () := by
      rw [checkReader, if_neg]
      simp only [Reader.skip]
      omega
    have hint : int ((t.skip 4).size - (T - 4)) = .ok ((t.skip 4).size - (T - 4)) := by
      apply int_ok <;> simp only [Reader.skip] <;> omega
    rw [readBytes, hcheck]
    simp only [bind, Except.bind, hint]
    have hskip : t.skip T = (t.skip 4).skip (T - 4) := by rw [skip_skip]; congr 1; omega
    rw [hskip]
    rfl
  · have hskip := h.skip
    rwa [← hT] at hskip

/-- What the four kinds do with the number `sz` in front. -/
theorem unpackRaw_eq {k : Raw} {sz p : Int} (hread : readInt32 data t = .ok (sz, t.skip 4))
    (hbytes : readBytes (t.skip 4) (sz + k.extra - 4) = .ok (p, t.skip (sz + k.extra)))
    (hpush : pushlstring data t.ptr (sz + k.extra) = .ok bs) (hzero : 0 ≤ sz + k.extra) (hlt : sz + k.extra < 2 ^ 31) :
    unpackValue data dict t k.kind = .ok (makeObject k.kind bs, t.skip (sz + k.extra)) := by
  cases k with
  | dbpointer =>
    simp only [Raw.extra] at hbytes hpush hzero hlt ⊢
    rw [show sz + 16 - 4 = sz + 12 by omega] at hbytes
    simp only [Raw.kind, unpackValue, hread, bind, Except.bind, int_ok (n := sz + 12) (by omega) (by omega), hbytes,
      int_ok (n := sz + 16) (by omega) (by omega), hpush]
  | jscode | symbol =>
    simp only [Raw.extra] at hbytes hpush hzero hlt ⊢
    rw [show sz + 4 - 4 = sz by omega] at hbytes
    simp only [Raw.kind, unpackValue, hread, bind, Except.bind, hbytes, int_ok (n := sz + 4) (by omega) (by omega),
      hpush]
  | codews =>
    simp only [Raw.extra, Int.add_zero] at hbytes hpush hzero hlt ⊢
    simp only [Raw.kind, unpackValue, hread, bind, Except.bind, int_ok (n := sz - 4) (by omega) (by omega), hbytes,
      hpush]

theorem unpackRaw_at {k : Raw} (h : At data t (bs ++ rest)) (hdata : data.length < 2 ^ 31)
    (hok : (Scalar.raw k bs).Ok rest) :
    ∃ t', unpackValue data dict t k.kind = .ok (makeObject k.kind bs, t') ∧ At data t' rest := by
  have hlt := h.length_lt hdata
  rw [List.length_append] at hlt
  obtain ⟨hfour, hT⟩ := hok
  obtain ⟨hread, hbytes, hpush, hat⟩ := raw_at h hdata hfour hT
  exact ⟨_, unpackRaw_eq hread hbytes hpush (by omega) (by omega), hat⟩

theorem toUint32_toInt (v : BitVec 32) : toUint32 v.toInt = v.toNat := by
  rw [BitVec.toInt_eq_toNat_bmod]
  exact toUint32_toInt32 v.isLt

theorem unpackValue_at (s : Scalar) (h : At data t (s.bytes ++ rest)) (hdata : data.length < 2 ^ 31) (hok : s.Ok rest) :
    ∃ t', unpackValue data dict t s.kind = .ok (s.value, t') ∧ At data t' rest := by
  have hlt := h.length_lt hdata
  cases s with
  | real _ | date _ | int64 _ =>
    obtain ⟨hread, hat⟩ := readInt64_at h
    exact ⟨_, by simp only [Scalar.kind, unpackValue, hread]; rfl, hat⟩
  | string s last =>
    rw [Scalar.bytes, List.append_assoc, List.append_assoc] at h
    simp only [Scalar.bytes, List.length_append, Endian.le_length] at hlt
    obtain ⟨hread, hat⟩ := readLength_at (by omega) h
    have hat' : At data (t.skip 4) ((s ++ [last]) ++ rest) := by rw [List.append_assoc]; exact hat
    have hbytes := readBytes_at (n := ((s.length + 1 : Nat) : Int)) hat' hdata (by simp)
    have hpush := pushlstring_at (n := ((s.length + 1 : Nat) : Int) - 1) hat (by omega)
    have hskip := hat'.skip
    rw [List.length_append, List.length_singleton] at hskip
    refine ⟨_, ?_, hskip⟩
    simp only [Scalar.kind, unpackValue, hread, bind, Except.bind]
    rw [if_neg (by omega)]
    simp only [hbytes, hpush]
    rfl
  | binary subtype bs =>
    rw [Scalar.bytes, List.append_assoc, List.cons_append] at h
    simp only [Scalar.bytes, List.length_append, Endian.le_length, List.length_cons] at hlt
    obtain ⟨hread, hat⟩ := readLength_at (by omega) h
    obtain ⟨hbyte, hat'⟩ := readByte_at hat
    have hbytes := readBytes_at (n := (bs.length : Int)) hat' hdata rfl
    have hpush := pushlstring_at (n := (bs.length : Int)) hat' rfl
    refine ⟨_, ?_, hat'.skip⟩
    simp only [Scalar.kind, unpackValue, hread, bind, Except.bind, hbyte, hbytes, hpush, UInt8.ofNat_toNat]
    rfl
  | objectid id =>
    have hlen : id.length = 12 := hok
    have hbytes := readBytes_at (n := 12) h hdata (by simp [Scalar.bytes, hlen])
    have hpush := pushlstring_at (n := 12) h (by simp [Scalar.bytes, hlen])
    have hskip := h.skip
    refine ⟨_, ?_, hskip⟩
    simp only [Scalar.kind, unpackValue, hbytes, bind, Except.bind, hpush, Scalar.bytes, hlen]
    rfl
  | boolean v =>
    obtain ⟨hbyte, hat⟩ := readByte_at h
    exact ⟨_, by simp only [Scalar.kind, unpackValue, hbyte]; rfl, hat⟩
  | null | minkey | maxkey => exact ⟨t, rfl, h⟩
  | regex r1 r2 =>
    obtain ⟨h1, h2⟩ := hok
    rw [Scalar.bytes, List.append_assoc, List.cons_append, List.append_assoc] at h
    obtain ⟨hread, hat⟩ := readCstring_at h h1
    obtain ⟨hread', hat'⟩ := readCstring_at hat h2
    refine ⟨_, ?_, hat'⟩
    simp only [Scalar.kind, unpackValue, hread, bind, Except.bind, hread']
    rfl
  | int32 v =>
    obtain ⟨hread, hat⟩ := readInt32_at h
    exact ⟨_, by simp only [Scalar.kind, unpackValue, hread]; rfl, hat⟩
  | timestamp inc ts =>
    rw [Scalar.bytes, List.append_assoc] at h
    obtain ⟨hread, hat⟩ := readInt32_at h
    obtain ⟨hread', hat'⟩ := readInt32_at hat
    refine ⟨_, ?_, hat'⟩
    simp only [Scalar.kind, unpackValue, hread, bind, Except.bind, hread', toUint32_toInt]
    rfl
  | raw k bs => exact unpackRaw_at h hdata hok

/-! ### What is read is such a value -/

theorem readNat_reads (h : At data t bs) (n : Nat) :
    Outcome (fun r => ∃ xs rest, bs = xs ++ rest ∧ xs.length = n ∧ r = (Endian.ofLe xs, t.skip n) ∧
    At data (t.skip n) rest)
      (Explained data) (readNat data t n) := by
  by_cases hn : bs.length < n
  · have hsize := h.size
    have hcheck : checkReader t n = .error (.block t.size n) := by rw [checkReader, if_pos (by omega)]
    rw [readNat, hcheck]
    trivial
  · have hlen : (bs.take n).length = n := by rw [List.length_take]; omega
    have hat : At data t (bs.take n ++ bs.drop n) := by rwa [List.take_append_drop]
    have hskip := hat.skip
    rw [hlen] at hskip
    rw [readNat_at hat hlen.symm]
    exact ⟨bs.take n, bs.drop n, (List.take_append_drop n bs).symm, hlen, rfl, hskip⟩

theorem readByte_reads (h : At data t bs) :
    Outcome (fun r => ∃ b rest, bs = b :: rest ∧ r = (b.toNat, t.skip 1) ∧ At data (t.skip 1) rest) (Explained data)
      (readByte data t) := by
  refine (readNat_reads h 1).mono ?_
  rintro _ ⟨xs, rest, rfl, hlen, rfl, hat⟩
  obtain ⟨b, rfl⟩ := List.length_eq_one_iff.mp hlen
  exact ⟨b, rest, rfl, by simp [Endian.ofLe], hat⟩

theorem readInt64_reads (h : At data t bs) :
    Outcome (fun r => ∃ (v : BitVec 64) (rest : Bytes), bs = Endian.le 8 v.toNat ++ rest ∧ r = (v, t.skip 8) ∧
      At data (t.skip 8) rest) (Explained data) (readInt64 data t) := by
  refine Outcome.bind (readNat_reads h 8) ?_
  rintro _ ⟨xs, rest, rfl, hlen, rfl, hat⟩
  exact ⟨BitVec.ofNat 64 (Endian.ofLe xs), rest, by rw [le_ofNat rfl hlen], rfl, hat⟩

theorem readInt32_reads (h : At data t bs) :
    Outcome (fun r => ∃ (v : BitVec 32) (rest : Bytes), bs = Endian.le 4 v.toNat ++ rest ∧ r = (v.toInt, t.skip 4) ∧
      At data (t.skip 4) rest ∧ lengthAt data t.ptr.toNat = v.toInt) (Explained data) (readInt32 data t) := by
  obtain ⟨tail, htail⟩ := h.rest
  refine Outcome.bind (readNat_reads h 4) ?_
  rintro _ ⟨xs, rest, rfl, hlen, rfl, hat⟩
  have hv : (BitVec.ofNat 32 (Endian.ofLe xs)).toInt = toInt32 (Endian.ofLe xs) := BitVec.toInt_ofNat ..
  refine ⟨BitVec.ofNat 32 (Endian.ofLe xs), rest, by rw [le_ofNat rfl hlen], by rw [hv]; rfl, hat, ?_⟩
  rw [lengthAt, htail, hv, List.append_assoc, ← hlen, List.take_left]

theorem cstringLoop_none (h : At data t bs) (hbs : 0 ∉ bs) {fuel i : Nat} (hi : i ≤ bs.length)
    (hfuel : bs.length < fuel + i) : cstringLoop data t fuel i = .error .cstring := by
  induction fuel generalizing i with
  | zero => omega
  | succ fuel ih =>
    have hsize := h.size
    rw [cstringLoop]
    rcases Nat.lt_or_eq_of_le hi with hlt | heq
    · have hat : At data t (bs.take i ++ bs.drop i) := by rwa [List.take_append_drop]
      have hskip := hat.skip
      rw [List.length_take, Nat.min_eq_left hi, List.drop_eq_getElem_cons hlt] at hskip
      have hfront : At data (t.skip i) ([bs[i]] ++ bs.drop (i + 1)) := hskip
      have hbyte : bytesAt data (t.ptr + i) 1 = .ok [bs[i]] := bytesAt_at hfront
      have hne : ¬ [bs[i]] = [0] := by
        intro he
        exact hbs ((List.cons.inj he).1 ▸ List.getElem_mem hlt)
      rw [if_neg (by omega), hbyte]
      simp only [bind, Except.bind]
      rw [if_neg hne]
      exact ih hlt (by omega)
    · rw [if_pos (by omega)]

theorem readCstring_reads (h : At data t bs) :
    Outcome (fun r => ∃ s rest, bs = s ++ 0 :: rest ∧ 0 ∉ s ∧ r = (s, t.skip (s.length + 1)) ∧
      At data (t.skip (s.length + 1)) rest) (Explained data) (readCstring data t) := by
  have hptr := h.ptr
  have hbound := h.bound
  by_cases hbs : 0 ∈ bs
  · obtain ⟨s, rest, rfl, hs⟩ := List.eq_append_cons_of_mem hbs
    obtain ⟨hread, hat⟩ := readCstring_at h hs
    rw [hread]
    exact ⟨s, rest, rfl, hs, rfl, hat⟩
  · rw [readCstring, cstringLoop_none h hbs (Nat.zero_le _) (by omega)]
    trivial

theorem readBytes_reads (h : At data t bs) (hdata : data.length < 2 ^ 31) {n : Int} (hn : 0 ≤ n) :
    Outcome (fun r => ∃ xs rest, bs = xs ++ rest ∧ n = xs.length ∧ r = (t.ptr, t.skip n) ∧ At data (t.skip n) rest)
      (Explained data) (readBytes t n) := by
  by_cases hlt : bs.length < n
  · have hsize := h.size
    have hcheck : checkReader t n = .error (.block t.size n) := by rw [checkReader, if_pos (by omega)]
    rw [readBytes, hcheck]
    trivial
  · have hlen : n = (bs.take n.toNat).length := by rw [List.length_take]; omega
    have hat : At data t (bs.take n.toNat ++ bs.drop n.toNat) := by rwa [List.take_append_drop]
    have hskip := hat.skip
    rw [← hlen] at hskip
    rw [readBytes_at hat hdata hlen]
    exact ⟨bs.take n.toNat, bs.drop n.toNat, (List.take_append_drop _ bs).symm, hlen, rfl, hskip⟩

/-- Back in the block. -/
theorem readBytes_back (t : Reader) (n : Int) (hE : 2 ^ 31 ≤ t.size - n → Explained data .overflow) :
    Outcome (fun r => r = (t.ptr, t.skip n)) (Explained data) (readBytes t n) := by
  unfold readBytes checkReader
  by_cases hlt : t.size < n
  · rw [if_pos hlt]
    trivial
  · rw [if_neg hlt]
    simp only [bind, Except.bind]
    by_cases hint : -2 ^ 31 ≤ t.size - n ∧ t.size - n < 2 ^ 31
    · rw [int, if_pos hint]
      rfl
    · rw [int, if_neg hint]
      exact hE (by omega)

theorem int_reads {n : Int} (hE : ¬ (-2 ^ 31 ≤ n ∧ n < 2 ^ 31) → Explained data .overflow) :
    Outcome (fun m => m = n) (Explained data) (int n) := by
  by_cases hint : -2 ^ 31 ≤ n ∧ n < 2 ^ 31
  · rw [int, if_pos hint]
    rfl
  · rw [int, if_neg hint]
    exact hE hint

/-- A negative length, or one that is too large for a pointer. -/
theorem overflow_explained {k : Kind} {key : Bytes} {p : Nat} (hf : FieldAt data k.byte key p) (hk : k.hasLength = true)
    (hn : lengthAt data p < 0 ∨ k = .dbpointer ∧ 2 ^ 31 - 12 ≤ lengthAt data p) : Explained data .overflow :=
  .inl ⟨k, key, p, hf, hk, hn⟩

theorem toNat_of_toInt {v : BitVec 32} {n : Nat} (h : v.toInt = n) : v.toNat = n := by
  rw [BitVec.toInt_eq_toNat_bmod] at h
  exact eq_of_toInt32 v.isLt h

theorem unpackString_reads (h : At data t bs) (hdata : data.length < 2 ^ 31) :
    Outcome (fun r => ∃ s last rest, bs = (Scalar.string s last).bytes ++ rest ∧ r.1 = .string s ∧ At data r.2 rest)
      (Explained data) (unpackValue data dict t .string) := by
  refine Outcome.bind (readInt32_reads h) ?_
  rintro _ ⟨v, ys, rfl, rfl, hat, -⟩
  by_cases hpos : v.toInt ≤ 0
  · simp only [if_pos hpos]
    trivial
  simp only [if_neg hpos]
  refine Outcome.bind (readBytes_reads hat hdata (by omega)) ?_
  rintro _ ⟨xs, rest, rfl, hlen, rfl, hat'⟩
  have hne : xs ≠ [] := by
    rintro rfl
    rw [List.length_nil] at hlen
    omega
  obtain ⟨s, last, rfl⟩ : ∃ s last, xs = s ++ [last] :=
    ⟨xs.dropLast, xs.getLast hne, (List.dropLast_append_getLast hne).symm⟩
  rw [List.length_append, List.length_singleton] at hlen
  rw [List.append_assoc] at hat
  simp only [pushlstring_at (n := v.toInt - 1) hat (by omega)]
  refine ⟨s, last, rest, ?_, rfl, hat'⟩
  rw [Scalar.bytes, ← toNat_of_toInt hlen]
  simp

theorem unpackBinary_reads (h : At data t bs) (hdata : data.length < 2 ^ 31) {key : Bytes}
    (hf : FieldAt data Kind.binary.byte key t.ptr.toNat) :
    Outcome (fun r => ∃ subtype s rest, bs = (Scalar.binary subtype s).bytes ++ rest ∧
      r.1 = (Scalar.binary subtype s).value ∧ At data r.2 rest) (Explained data) (unpackValue data dict t .binary) := by
  refine Outcome.bind (readInt32_reads h) ?_
  rintro _ ⟨v, ys, rfl, rfl, hat, hlenAt⟩
  refine Outcome.bind (readByte_reads hat) ?_
  rintro _ ⟨subtype, zs, rfl, rfl, hat'⟩
  by_cases hneg : v.toInt < 0
  · refine Outcome.bind (readBytes_back _ _ fun _ => overflow_explained hf rfl (.inl (by rw [hlenAt]; exact hneg))) ?_
    rintro _ rfl
    simp only [pushlstring, if_pos hneg]
    trivial
  refine Outcome.bind (readBytes_reads hat' hdata (by omega)) ?_
  rintro _ ⟨xs, rest, rfl, hlen, rfl, hat''⟩
  simp only [pushlstring_at hat' hlen]
  refine ⟨subtype, xs, rest, ?_, by simp only [UInt8.ofNat_toNat]; rfl, hat''⟩
  rw [Scalar.bytes, ← toNat_of_toInt hlen]
  simp

theorem unpackRegex_reads (h : At data t bs) :
    Outcome (fun r => ∃ r1 r2 rest, bs = (Scalar.regex r1 r2).bytes ++ rest ∧ (0 ∉ r1 ∧ 0 ∉ r2) ∧
      r.1 = (Scalar.regex r1 r2).value ∧ At data r.2 rest) (Explained data) (unpackValue data dict t .regex) := by
  refine Outcome.bind (readCstring_reads h) ?_
  rintro _ ⟨r1, ys, rfl, h1, rfl, hat⟩
  refine Outcome.bind (readCstring_reads hat) ?_
  rintro _ ⟨r2, rest, rfl, h2, rfl, hat'⟩
  exact ⟨r1, r2, rest, by simp [Scalar.bytes], ⟨h1, h2⟩, rfl, hat'⟩

theorem unpackTimestamp_reads (h : At data t bs) :
    Outcome (fun r => ∃ inc ts rest, bs = (Scalar.timestamp inc ts).bytes ++ rest ∧
      r.1 = (Scalar.timestamp inc ts).value ∧ At data r.2 rest) (Explained data)
      (unpackValue data dict t .timestamp) := by
  refine Outcome.bind (readInt32_reads h) ?_
  rintro _ ⟨inc, ys, rfl, rfl, hat, -⟩
  refine Outcome.bind (readInt32_reads hat) ?_
  rintro _ ⟨ts, rest, rfl, rfl, hat', -⟩
  exact ⟨inc, ts, rest, by simp [Scalar.bytes], by simp only [toUint32_toInt]; rfl, hat'⟩

theorem unpackObjectid_reads (h : At data t bs) (hdata : data.length < 2 ^ 31) :
    Outcome (fun r => ∃ id rest, bs = id ++ rest ∧ id.length = 12 ∧ r.1 = makeObject .objectid id ∧ At data r.2 rest)
      (Explained data) (unpackValue data dict t .objectid) := by
  refine Outcome.bind (readBytes_reads h hdata (by omega)) ?_
  rintro _ ⟨id, rest, rfl, hlen, rfl, hat⟩
  simp only [pushlstring_at h hlen]
  exact ⟨id, rest, rfl, by omega, rfl, hat⟩

/-! ### Raw fields -/

/-- A length that leads back behind the field, or out of the document. -/
theorem unpackRaw_refused {k : Raw} {key ys : Bytes} {v : BitVec 32} (hdata : data.length < 2 ^ 31)
    (hf : FieldAt data k.kind.byte key t.ptr.toNat) (hlenAt : lengthAt data t.ptr.toNat = v.toInt)
    (hread : readInt32 data t = .ok (v.toInt, t.skip 4)) (hat : At data (t.skip 4) ys)
    (hbad : v.toInt + k.extra < 0 ∨ ys.length + 4 < v.toInt + k.extra) :
    Outcome (fun _ => False) (Explained data) (unpackValue data dict t k.kind) := by
  have hsize := hat.size
  have hlt := hat.length_lt hdata
  have hbound := hat.bound
  have hptr := hat.ptr
  have h31 := BitVec.toInt_lt (x := v)
  have h31' := BitVec.le_toInt (x := v)
  have hover : v.toInt < 0 ∨ k.kind = .dbpointer ∧ 2 ^ 31 - 12 ≤ v.toInt → Explained data .overflow := by
    rw [← hlenAt]
    exact overflow_explained hf (by cases k <;> rfl)
  -- the reader is moved, and what is to be kept has a negative length
  have hmoved : ∀ n T : Int, n = T - 4 → T = v.toInt + k.extra →
    Outcome (fun _ => T < 0) (Explained data) (readBytes (t.skip 4) n) := by
    intro n T hn hT
    by_cases hneg : T < 0
    · exact (readBytes_back _ _ fun _ => hover (.inl (by cases k <;> simp only [Raw.extra] at hT <;> omega))).mono
        fun _ _ => hneg
    · have hcheck : checkReader (t.skip 4) n = .error (.block (t.skip 4).size n) := by
        rw [checkReader, if_pos (by omega)]
      rw [readBytes, hcheck]
      trivial
  have hpush : ∀ p T : Int, T < 0 → pushlstring data p T = .error .tooLarge := by
    intro p T hT
    rw [pushlstring, if_pos hT]
  cases k with
  | dbpointer =>
    simp only [Raw.extra] at hbad hmoved
    simp only [Raw.kind, unpackValue, hread]
    refine Outcome.bind (Q := fun r => r = (v.toInt, t.skip 4)) rfl ?_
    rintro _ rfl
    refine Outcome.bind (int_reads (n := v.toInt + 12) fun hint => hover (.inr ⟨rfl, by omega⟩)) ?_
    rintro _ rfl
    refine Outcome.bind (hmoved _ _ (by omega) rfl) ?_
    intro r hneg
    refine Outcome.bind (int_reads (n := v.toInt + 16) fun hint => hover (.inl (by omega))) ?_
    rintro _ rfl
    rw [hpush _ _ hneg]
    trivial
  | jscode | symbol =>
    simp only [Raw.extra] at hbad hmoved
    simp only [Raw.kind, unpackValue, hread]
    refine Outcome.bind (Q := fun r => r = (v.toInt, t.skip 4)) rfl ?_
    rintro _ rfl
    refine Outcome.bind (hmoved _ _ (by omega) rfl) ?_
    intro r hneg
    refine Outcome.bind (int_reads (n := v.toInt + 4) fun hint => hover (.inl (by omega))) ?_
    rintro _ rfl
    rw [hpush _ _ hneg]
    trivial
  | codews =>
    simp only [Raw.extra, Int.add_zero] at hbad hmoved
    simp only [Raw.kind, unpackValue, hread]
    refine Outcome.bind (Q := fun r => r = (v.toInt, t.skip 4)) rfl ?_
    rintro _ rfl
    refine Outcome.bind (int_reads (n := v.toInt - 4) fun hint => hover (.inl (by omega))) ?_
    rintro _ rfl
    refine Outcome.bind (hmoved _ _ rfl rfl) ?_
    intro r hneg
    rw [hpush _ _ hneg]
    trivial

theorem unpackRaw_reads {k : Raw} {key : Bytes} (h : At data t bs) (hdata : data.length < 2 ^ 31)
    (hf : FieldAt data k.kind.byte key t.ptr.toNat) :
    Outcome (fun r => ∃ s rest, bs = s ++ rest ∧ (Scalar.raw k s).Ok rest ∧ r.1 = makeObject k.kind s ∧
    At data r.2 rest)
      (Explained data) (unpackValue data dict t k.kind) := by
  have hr := readInt32_reads h
  cases hread : readInt32 data t with
  | error e =>
    have hvalue : unpackValue data dict t k.kind = .error e := by
      cases k <;> simp only [Raw.kind, unpackValue, hread, bind, Except.bind]
    rw [hvalue]
    exact hr.of_error hread
  | ok r =>
    obtain ⟨v, ys, rfl, rfl, hat, hlenAt⟩ := hr.of_ok hread
    by_cases hbad : v.toInt + k.extra < 0 ∨ ys.length + 4 < v.toInt + k.extra
    · exact (unpackRaw_refused hdata hf hlenAt hread hat hbad).mono fun _ hfalse => hfalse.elim
    rw [not_or, Int.not_lt, Int.not_lt] at hbad
    obtain ⟨hzero, hle⟩ := hbad
    -- what is kept may end within the number, or behind it
    have hsplit := List.take_append_drop (v.toInt + k.extra).toNat (Endian.le 4 v.toNat ++ ys)
    have hlen : (((Endian.le 4 v.toNat ++ ys).take (v.toInt + k.extra).toNat).length : Int) = v.toInt + k.extra := by
      rw [List.length_take, List.length_append, Endian.le_length]
      omega
    have hok : (Scalar.raw k ((Endian.le 4 v.toNat ++ ys).take (v.toInt + k.extra).toNat)).Ok
        ((Endian.le 4 v.toNat ++ ys).drop (v.toInt + k.extra).toNat) := by
      have hfront : (Endian.le 4 v.toNat ++ ys).take 4 = Endian.le 4 v.toNat := by
        rw [List.take_append_of_le_length (by simp), List.take_of_length_le (by simp)]
      have hv : toInt32 v.toNat = v.toInt := by rw [BitVec.toInt_eq_toNat_bmod, toInt32]
      rw [Scalar.ok_raw, hsplit, hlen, hfront, Endian.ofLe_le_of_lt (by simpa using v.isLt), hv]
      exact ⟨by simp, rfl⟩
    have hat' := h
    rw [← hsplit] at hat'
    obtain ⟨t', hvalue, hrest⟩ : ∃ t', unpackValue data dict t k.kind = .ok (makeObject k.kind _, t') ∧ At data t' _ :=
      unpackRaw_at hat' hdata hok
    rw [hvalue]
    exact ⟨_, _, hsplit.symm, hok, rfl, hrest⟩

/-- A value, or an error with its reason. -/
theorem unpackValue_reads {k : Kind} {key : Bytes} (h : At data t bs) (hdata : data.length < 2 ^ 31)
    (hf : FieldAt data k.byte key t.ptr.toNat) (hdoc : k ≠ .document) (harr : k ≠ .array) :
    Outcome (fun r => ∃ (s : Scalar) (rest : Bytes), s.kind = k ∧ bs = s.bytes ++ rest ∧ s.Ok rest ∧ r.1 = s.value ∧
      At data r.2 rest) (Explained data) (unpackValue data dict t k) := by
  cases k with
  | real =>
    refine Outcome.bind (readInt64_reads h) ?_
    rintro _ ⟨v, rest, rfl, rfl, hat⟩
    exact ⟨.real v, rest, rfl, rfl, trivial, rfl, hat⟩
  | string =>
    refine (unpackString_reads h hdata).mono ?_
    rintro r ⟨s, last, rest, rfl, hvalue, hat⟩
    exact ⟨.string s last, rest, rfl, rfl, trivial, hvalue, hat⟩
  | document => exact absurd rfl hdoc
  | array => exact absurd rfl harr
  | binary =>
    refine (unpackBinary_reads h hdata hf).mono ?_
    rintro r ⟨subtype, s, rest, rfl, hvalue, hat⟩
    exact ⟨.binary subtype s, rest, rfl, rfl, trivial, hvalue, hat⟩
  | objectid =>
    refine (unpackObjectid_reads h hdata).mono ?_
    rintro r ⟨id, rest, rfl, hlen, hvalue, hat⟩
    exact ⟨.objectid id, rest, rfl, rfl, hlen, hvalue, hat⟩
  | boolean =>
    refine Outcome.bind (readByte_reads h) ?_
    rintro _ ⟨v, rest, rfl, rfl, hat⟩
    exact ⟨.boolean v, rest, rfl, rfl, trivial, rfl, hat⟩
  | date =>
    refine Outcome.bind (readInt64_reads h) ?_
    rintro _ ⟨v, rest, rfl, rfl, hat⟩
    exact ⟨.date v, rest, rfl, rfl, trivial, rfl, hat⟩
  | null => exact ⟨.null, bs, rfl, rfl, trivial, rfl, h⟩
  | regex =>
    refine (unpackRegex_reads h).mono ?_
    rintro r ⟨r1, r2, rest, rfl, hok, hvalue, hat⟩
    exact ⟨.regex r1 r2, rest, rfl, rfl, hok, hvalue, hat⟩
  | dbpointer =>
    refine (unpackRaw_reads (k := .dbpointer) h hdata hf).mono ?_
    rintro r ⟨s, rest, hbs, hok, hvalue, hat⟩
    exact ⟨.raw .dbpointer s, rest, rfl, hbs, hok, hvalue, hat⟩
  | jscode =>
    refine (unpackRaw_reads (k := .jscode) h hdata hf).mono ?_
    rintro r ⟨s, rest, hbs, hok, hvalue, hat⟩
    exact ⟨.raw .jscode s, rest, rfl, hbs, hok, hvalue, hat⟩
  | symbol =>
    refine (unpackRaw_reads (k := .symbol) h hdata hf).mono ?_
    rintro r ⟨s, rest, hbs, hok, hvalue, hat⟩
    exact ⟨.raw .symbol s, rest, rfl, hbs, hok, hvalue, hat⟩
  | codews =>
    refine (unpackRaw_reads (k := .codews) h hdata hf).mono ?_
    rintro r ⟨s, rest, hbs, hok, hvalue, hat⟩
    exact ⟨.raw .codews s, rest, rfl, hbs, hok, hvalue, hat⟩
  | int32 =>
    refine Outcome.bind (readInt32_reads h) ?_
    rintro _ ⟨v, rest, rfl, rfl, hat, -⟩
    exact ⟨.int32 v, rest, rfl, rfl, trivial, rfl, hat⟩
  | timestamp =>
    refine (unpackTimestamp_reads h).mono ?_
    rintro r ⟨inc, ts, rest, rfl, hvalue, hat⟩
    exact ⟨.timestamp inc ts, rest, rfl, rfl, trivial, hvalue, hat⟩
  | int64 =>
    refine Outcome.bind (readInt64_reads h) ?_
    rintro _ ⟨v, rest, rfl, rfl, hat⟩
    exact ⟨.int64 v, rest, rfl, rfl, trivial, rfl, hat⟩
  | minkey => exact ⟨.minkey, bs, rfl, rfl, trivial, rfl, h⟩
  | maxkey => exact ⟨.maxkey, bs, rfl, rfl, trivial, rfl, h⟩

end Fields

end Bson
end Skynet
