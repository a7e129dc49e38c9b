import Skynet.Bson.Fields

/-!
# Skynet.Bson.Accepted

What `decode` accepts.

* `ldecode_block` : the block of a document is decoded to its table.
* `ldecode_iff` : whatever is decoded is the block of a document.
* `ldecode_explained` : a byte outside of the block is read only for a nested document that announces a negative length, and
  an `int` overflows only for a negative length, a pointer that announces almost `2 ^ 31` bytes, or the index `2 ^ 63 - 1`.
-/

namespace Skynet
namespace Bson

open Lua
open Seri (toInt32)
open Decimal (strtol strtol_le)

section Accepted

variable {data : Bytes}

/-! ### The block of a document is decoded -/

/-- A document, when its fields are read. -/
theorem unpackDict_at {a : Bool} {t : Reader} {body rest : Bytes} {es : Entries} {depth : Nat}
    (hdata : data.length < 2 ^ 31)
    (h : At data t (wrap body ++ rest))
    (hfields : ∀ r, At data r body → unpackFields data (unpackDict data depth) a (body.length + 1) [] r = .ok es) :
    ∃ t', unpackDict data (depth + 1) a t = .ok (.table es, t') ∧ At data t' rest := by
  have hlt := h.length_lt hdata
  rw [List.length_append, wrap_length] at hlt
  rw [wrap, List.append_assoc, List.append_assoc] at h
  obtain ⟨hread, hat⟩ := readLength_at (by omega) h
  have hint : int (((body.length + 5 : Nat) : Int) - 5) = .ok (body.length : Int) := by
    rw [show ((body.length + 5 : Nat) : Int) - 5 = body.length by omega]
    exact int_ok (by omega) (by omega)
  have hbytes := readBytes_at (n := (body.length : Int)) hat hdata rfl
  obtain ⟨hbyte, hat'⟩ := readByte_at hat.skip
  have hin := hfields _ hat.front
  refine ⟨_, ?_, hat'⟩
  rw [unpackDict, hread]
  simp only [bind, Except.bind, hint, hbytes, hbyte, Int.toNat_natCast, hin]
  rfl

theorem unpackFields_at (hdata : data.length < 2 ^ 31) (d : Doc) :
    ∀ (array : Bool) (es : Entries) (t : Reader) (depth fuel : Nat), d.Ok array → At data t d.bytes →
      d.bytes.length < fuel → d.bytes.length ≤ depth →
        unpackFields data (unpackDict data depth) array fuel es t = .ok (d.table array es) := by
  induction d with
  | nil =>
    intro array es t depth fuel _ hat hfuel _
    obtain ⟨fuel, rfl⟩ : ∃ n, fuel = n + 1 := ⟨fuel - 1, by omega⟩
    have hsize : t.size = 0 := hat.size
    rw [unpackFields, if_pos hsize]
    rfl
  | field key v rest ih =>
    intro array es t depth fuel hok hat hfuel hdepth
    obtain ⟨hkey, hv, hrest⟩ := hok
    rw [Doc.bytes_field] at hat hfuel hdepth
    simp only [List.length_cons, List.length_append] at hfuel hdepth
    obtain ⟨fuel, rfl⟩ : ∃ n, fuel = n + 1 := ⟨fuel - 1, by omega⟩
    have hsize := hat.size
    rw [List.length_cons] at hsize
    obtain ⟨hbt, hat₁⟩ := readByte_at hat
    obtain ⟨hcstring, hat₂⟩ := readCstring_at hat₁ hkey.1
    obtain ⟨t', hvalue, hat₃⟩ : ∃ t', unpackValue data (unpackDict data depth)
      ((t.skip 1).skip (key.length + 1)) v.kind =
        .ok (v.value, t') ∧ At data t' rest.bytes := unpackValue_at v hat₂ hdata hv
    have hnext := ih array (setKey es (keyValue array key) v.value) t' depth fuel hrest hat₃ (by omega) (by omega)
    rw [unpackFields, if_neg (by omega), hbt]
    simp only [bind, Except.bind, hcstring, fieldKey_ok hkey, Kind.byte_toNat, Kind.ofCode_code, hvalue, hnext]
    rfl
  | nested a key inner rest ihin ih =>
    intro array es t depth fuel hok hat hfuel hdepth
    obtain ⟨hkey, hinner, hrest⟩ := hok
    rw [Doc.bytes_nested] at hat hfuel hdepth
    simp only [List.length_cons, List.length_append, wrap_length] at hfuel hdepth
    obtain ⟨fuel, rfl⟩ : ∃ n, fuel = n + 1 := ⟨fuel - 1, by omega⟩
    obtain ⟨depth, rfl⟩ : ∃ n, depth = n + 1 := ⟨depth - 1, by omega⟩
    have hsize := hat.size
    rw [List.length_cons] at hsize
    obtain ⟨hbt, hat₁⟩ := readByte_at hat
    obtain ⟨hcstring, hat₂⟩ := readCstring_at hat₁ hkey.1
    obtain ⟨t', hdict, hat₃⟩ := unpackDict_at (a := a) hdata hat₂ fun r hr =>
      ihin a [] r depth (inner.bytes.length + 1) hinner hr (by omega) (by omega)
    have hvalue :
        unpackValue data (unpackDict data (depth + 1)) ((t.skip 1).skip (key.length + 1)) (tableKind a) =
          .ok (.table (inner.table a []), t') := by
      rw [← hdict]
      cases a <;> rfl
    have hnext := ih array (setKey es (keyValue array key) (.table (inner.table a []))) t' (depth + 1) fuel hrest hat₃
      (by omega) (by omega)
    rw [unpackFields, if_neg (by omega), hbt]
    simp only [bind, Except.bind, hcstring, fieldKey_ok hkey, ofCode_tableKind, hvalue, hnext]
    rfl

/-! ### What is decoded is a document -/

/-- Behind the type and the key of a field. -/
theorem fieldAt_of {t : Reader} {bt : UInt8} {key rest : Bytes} (h : At data t (bt :: (key ++ 0 :: rest)))
    (hkey : 0 ∉ key) : FieldAt data bt key ((t.skip 1).skip (key.length + 1)).ptr.toNat := by
  obtain ⟨hptr, -, ⟨tail, htail⟩, -⟩ := h
  refine ⟨hkey, t.ptr.toNat, by simp only [Reader.skip]; omega, ?_⟩
  have hsplit : (bt :: (key ++ 0 :: rest)) ++ tail = (bt :: (key ++ [0])) ++ (rest ++ tail) := by simp
  have hlen : key.length + 2 = (bt :: (key ++ [0])).length := by simp
  rw [htail, hsplit, hlen, List.take_left]

/-- Documents in the fields that are at most `n` bytes. -/
def Nested (data : Bytes) (n : Nat) (dict : Bool → Reader → Except DecodeError (Value × Reader)) : Prop :=
  ∀ a t bs key, At data t bs → bs.length ≤ n → FieldAt data (tableKind a).byte key t.ptr.toNat →
    Outcome (fun r => ∃ (d : Doc) (rest : Bytes), bs = wrap d.bytes ++ rest ∧ d.Ok a ∧ r.1 = .table (d.table a []) ∧
      At data r.2 rest) (Explained data) (dict a t)

theorem fieldKey_reads {array : Bool} {bt : UInt8} {key : Bytes} {p : Nat} (hf : FieldAt data bt key p) :
    Outcome (fun v => FieldKeyOk array key ∧ v = keyValue array key) (Explained data) (fieldKey array key) := by
  by_cases hkey : FieldKeyOk array key
  · rw [fieldKey_ok hkey]
    exact ⟨hkey, rfl⟩
  · cases array with
    | false => exact absurd ⟨hf.1, fun h => absurd h (by decide)⟩ hkey
    | true =>
      have hbig : ¬ strtol key + 1 < 2 ^ 63 := fun hlt => hkey ⟨hf.1, fun _ => hlt⟩
      have hle := strtol_le key
      rw [fieldKey, if_pos rfl, if_neg hbig]
      exact .inr ⟨bt, key, p, hf, by omega⟩

theorem unpackFields_reads (hdata : data.length < 2 ^ 31) {n : Nat}
    {dict : Bool → Reader → Except DecodeError (Value × Reader)} (hdict : Nested data n dict) {array : Bool}
    {fuel : Nat} :
    ∀ (es : Entries) (t : Reader) (bs : Bytes), At data t bs → bs.length ≤ n → bs.length < fuel →
      Outcome (fun es' => ∃ d : Doc, bs = d.bytes ∧ d.Ok array ∧ es' = d.table array es) (Explained data)
        (unpackFields data dict array fuel es t) := by
  induction fuel with
  | zero => intro es t bs _ _ hfuel; omega
  | succ fuel ih =>
    intro es t bs hat hn hfuel
    have hsize := hat.size
    rw [unpackFields]
    by_cases hzero : t.size = 0
    · rw [if_pos hzero]
      exact ⟨.nil, List.eq_nil_of_length_eq_zero (by omega), trivial, rfl⟩
    rw [if_neg hzero]
    refine Outcome.bind (readByte_reads hat) ?_
    rintro _ ⟨bt, ys, rfl, rfl, hat₁⟩
    refine Outcome.bind (readCstring_reads hat₁) ?_
    rintro _ ⟨key, zs, rfl, hkey, rfl, hat₂⟩
    simp only [List.length_cons, List.length_append] at hn hfuel
    have hf := fieldAt_of hat hkey
    refine Outcome.bind (fieldKey_reads hf) ?_
    rintro _ ⟨hkeyOk, rfl⟩
    cases hk : Kind.ofCode bt.toNat with
    | none => trivial
    | some k =>
      have hbyte := Kind.byte_of_ofCode hk
      rw [← hbyte] at hf
      by_cases hnested : ∃ a, k = tableKind a
      · obtain ⟨a, rfl⟩ := hnested
        have hvalue : unpackValue data dict ((t.skip 1).skip (key.length + 1)) (tableKind a) =
            dict a ((t.skip 1).skip (key.length + 1)) := by cases a <;> rfl
        simp only [hvalue]
        refine Outcome.bind (hdict a _ zs key hat₂ (by omega) hf) ?_
        rintro ⟨_, t'⟩ ⟨inner, rest, rfl, hinner, rfl, hat₃⟩
        rw [List.length_append] at hn hfuel
        refine (ih _ t' rest hat₃ (by omega) (by omega)).mono ?_
        rintro es' ⟨d, rfl, hd, rfl⟩
        exact ⟨.nested a key inner d, by rw [Doc.bytes_nested, hbyte], ⟨hkeyOk, hinner, hd⟩, rfl⟩
      · have hdoc : k ≠ .document := fun he => hnested ⟨false, he⟩
        have harr : k ≠ .array := fun he => hnested ⟨true, he⟩
        refine Outcome.bind (unpackValue_reads hat₂ hdata hf hdoc harr) ?_
        rintro ⟨_, t'⟩ ⟨v, rest, rfl, rfl, hv, rfl, hat₃⟩
        rw [List.length_append] at hn hfuel
        refine (ih _ t' rest hat₃ (by omega) (by omega)).mono ?_
        rintro es' ⟨d, rfl, hd, rfl⟩
        exact ⟨.field key v d, by rw [Doc.bytes_field, hbyte], ⟨hkeyOk, hv, hd⟩, rfl⟩

theorem unpackFields_negative {dict : Bool → Reader → Except DecodeError (Value × Reader)} {array : Bool} {fuel : Nat}
    {es : Entries} {t : Reader} (h : t.size < 0) :
    unpackFields data dict array (fuel + 1) es t = .error (.block t.size 1) := by
  have hcheck : checkReader t (1 : Nat) = .error (.block t.size 1) := by rw [checkReader, if_pos (by omega)]; rfl
  rw [unpackFields, if_neg (by omega), readByte, readNat, hcheck]
  rfl

theorem readByte_back {t : Reader} (hle : t.ptr + 1 ≤ data.length) (hE : t.ptr < 0 → Explained data (.outside t.ptr)) :
    Outcome (fun _ => True) (Explained data) (readByte data t) := by
  unfold readByte readNat checkReader
  by_cases hlt : t.size < (1 : Nat)
  · rw [if_pos hlt]
    trivial
  · rw [if_neg hlt]
    simp only [bind, Except.bind]
    by_cases hptr : 0 ≤ t.ptr
    · rw [bytesAt, if_pos ⟨hptr, by omega⟩]
      trivial
    · rw [bytesAt, if_neg (by omega)]
      exact hE (by omega)

/-- A nested document, or one of which the length is not negative. -/
def Begins (data : Bytes) (t : Reader) : Prop :=
  (∃ array key, FieldAt data (tableKind array).byte key t.ptr.toNat) ∨
    0 ≤ lengthAt data t.ptr.toNat ∧ 0 < t.ptr + lengthAt data t.ptr.toNat

/-- A document that announces less than the five bytes it needs is refused, perhaps after a look outside of the block. -/
theorem unpackDict_short {a : Bool} {t : Reader} {ys : Bytes} {v : BitVec 32} {fuel : Nat}
    (hdata : data.length < 2 ^ 31)
    (hat : At data t (Endian.le 4 v.toNat ++ ys)) (hlenAt : lengthAt data t.ptr.toNat = v.toInt)
    (hbegins : Begins data t)
    (hshort : v.toInt < 5) : Outcome (fun _ => False) (Explained data) (unpackDict data (fuel + 1) a t) := by
  have hptr := hat.ptr
  have hsize := hat.size
  have hbound := hat.bound
  rw [List.length_append, Endian.le_length] at hsize hbound
  -- what is needed of the two ways to begin
  have hneg : v.toInt < 0 → ∃ array key, FieldAt data (tableKind array).byte key t.ptr.toNat := by
    intro hneg
    rcases hbegins with hf | ⟨hpos, -⟩
    · exact hf
    · omega
  have hover : v.toInt < 0 → Explained data .overflow := by
    intro hlt
    obtain ⟨array, key, hf⟩ := hneg hlt
    exact overflow_explained hf (by cases array <;> rfl) (.inl (by rw [hlenAt]; exact hlt))
  have hfront : 0 ≤ v.toInt → 0 < t.ptr + v.toInt := by
    intro hpos
    rcases hbegins with ⟨array, key, -, q, hp, -⟩ | ⟨-, hlt⟩
    · omega
    · omega
  have hv := BitVec.le_toInt (x := v)
  rw [unpackDict, (readInt32_at hat).1]
  refine Outcome.bind (Q := fun r => r = (v.toInt, t.skip 4)) rfl ?_
  rintro _ rfl
  refine Outcome.bind (int_reads (n := v.toInt - 5) fun hint => hover (by omega)) ?_
  rintro _ rfl
  refine Outcome.bind (readBytes_back _ _ fun hbig => hover ?_) ?_
  · simp only [Reader.skip] at hbig
    omega
  rintro _ rfl
  refine Outcome.bind (readByte_back ?_ fun hout => ?_) ?_
  · simp only [Reader.skip]
    omega
  · simp only [Reader.skip] at hout ⊢
    obtain ⟨array, key, hf⟩ := hneg (by omega)
    exact ⟨array, key, t.ptr.toNat, hf, by rw [hlenAt]; omega, by rw [hlenAt]; omega⟩
  rintro ⟨e, t'⟩ -
  by_cases he : e ≠ 0
  · simp only [if_pos he]
    trivial
  · simp only [if_neg he]
    rw [unpackFields_negative (by simp only; omega)]
    trivial

theorem unpackDict_reads (hdata : data.length < 2 ^ 31) (fuel : Nat) : ∀ (a : Bool) (t : Reader) (bs : Bytes),
    At data t bs →
    bs.length < fuel → Begins data t →
      Outcome (fun r => ∃ (d : Doc) (rest : Bytes), bs = wrap d.bytes ++ rest ∧ d.Ok a ∧ r.1 = .table (d.table a []) ∧
        At data r.2 rest) (Explained data) (unpackDict data fuel a t) := by
  induction fuel with
  | zero => intro a t bs _ hfuel; omega
  | succ fuel ih =>
    intro a t bs hat hfuel hbegins
    have hr := readInt32_reads hat
    cases hread : readInt32 data t with
    | error e =>
      rw [unpackDict, hread]
      exact hr.of_error hread
    | ok r =>
      obtain ⟨v, ys, rfl, rfl, hat₁, hlenAt⟩ := hr.of_ok hread
      by_cases hshort : v.toInt < 5
      · exact (unpackDict_short hdata hat hlenAt hbegins hshort).mono fun _ h => h.elim
      have hv := BitVec.toInt_lt (x := v)
      rw [unpackDict, hread]
      refine Outcome.bind (Q := fun r => r = (v.toInt, t.skip 4)) rfl ?_
      rintro _ rfl
      refine Outcome.bind (int_reads (n := v.toInt - 5) fun hint => absurd ⟨by omega, by omega⟩ hint) ?_
      rintro _ rfl
      refine Outcome.bind (readBytes_reads hat₁ hdata (by omega)) ?_
      rintro _ ⟨body, zs, rfl, hbody, rfl, hat₂⟩
      refine Outcome.bind (readByte_reads hat₂) ?_
      rintro _ ⟨e, rest, rfl, rfl, hat₃⟩
      by_cases he : e.toNat ≠ 0
      · simp only [if_pos he]
        trivial
      simp only [if_neg he]
      simp only [List.length_append, List.length_cons, Endian.le_length] at hfuel
      have hnested : Nested data body.length (unpackDict data fuel) := by
        intro a' t' bs' key hat' hle hf
        exact ih a' t' bs' hat' (by omega) (.inl ⟨a', key, hf⟩)
      have hin : At data { ptr := (t.skip 4).ptr, size := v.toInt - 5 } body := by
        have hfront := hat₁.front
        rwa [← hbody] at hfront
      refine Outcome.bind (unpackFields_reads hdata hnested [] _ body hin (Nat.le_refl _) (by omega)) ?_
      rintro _ ⟨d, rfl, hd, rfl⟩
      refine ⟨d, rest, ?_, hd, rfl, hat₃⟩
      have hlen : v.toNat = d.bytes.length + 5 := toNat_of_toInt (by omega)
      have hzero : e = 0 := UInt8.toNat_inj.mp (not_not.mp he)
      rw [wrap, hlen, hzero]
      simp

/-! ### The call -/

/-- The block announces its own length. -/
theorem getLength_eq {len : Int} (h : getLength data = .ok len) : 4 ≤ data.length ∧ len = lengthAt data 0 := by
  rw [getLength, bytesAt] at h
  by_cases hfour : (0 : Int) ≤ 0 ∧ (0 : Int) + (4 : Nat) ≤ data.length
  · rw [if_pos hfour] at h
    exact ⟨by omega, (Except.ok.inj h).symm⟩
  · rw [if_neg hfour] at h
    cases h

theorem at_front {len : Int} (hpos : 0 ≤ len) (hle : len ≤ data.length) :
    At data { ptr := 0, size := len } (data.take len.toNat) := by
  have hlen : (data.take len.toNat).length = len.toNat := by rw [List.length_take]; omega
  exact ⟨Int.le_refl 0, by rw [hlen]; exact (Int.toNat_of_nonneg hpos).symm,
    ⟨data.drop len.toNat, (List.take_append_drop _ _).symm⟩, by simp only; omega⟩

/-- A document that is at the front of a block as long as it announces is the block. -/
theorem block_of_front {len : Int} {body rest : Bytes} (hdata : data.length < 2 ^ 31) (hle : len ≤ data.length)
    (hfour : 4 ≤ len) (hlen : len = lengthAt data 0) (h : data.take len.toNat = wrap body ++ rest) : rest = [] := by
  have htotal := congrArg List.length h
  rw [List.length_take, List.length_append, wrap_length] at htotal
  have htake : data.take 4 = Endian.le 4 (body.length + 5) := by
    have hfront : data.take 4 = (data.take len.toNat).take 4 := by rw [List.take_take]; congr 1; omega
    rw [hfront, h, wrap, List.append_assoc, List.append_assoc, List.take_append_of_le_length (by simp),
      List.take_of_length_le (by simp)]
  have hannounced : len = ((body.length + 5 : Nat) : Int) := by
    rw [hlen, lengthAt, List.drop_zero, htake, Endian.ofLe_le_of_lt (by simp; omega)]
    exact toInt32_of_lt (by omega)
  exact List.eq_nil_of_length_eq_zero (by omega)

theorem ldecode_reads {len : Int} (hdata : data.length < 2 ^ 31) (hlen : getLength data = .ok len)
    (hle : len ≤ data.length) :
    Outcome (fun v => ∃ d : Doc, d.Ok false ∧ data.take len.toNat = d.block ∧ v = d.value) (Explained data)
      (ldecode data) := by
  obtain ⟨hfour, hlenAt⟩ := getLength_eq hlen
  rw [ldecode, hlen]
  refine Outcome.bind (Q := fun n => n = len) rfl ?_
  rintro len rfl
  by_cases hshort : len < 4
  · have hcheck : checkReader { ptr := 0, size := len } (4 : Nat) = .error (.block len 4) := if_pos hshort
    rw [unpackDict, readInt32, readNat, hcheck]
    trivial
  · have hpos : 0 ≤ len := by omega
    have hat := at_front hpos hle
    have hbegins : Begins data { ptr := 0, size := len } := by
      right
      change 0 ≤ lengthAt data 0 ∧ 0 < 0 + lengthAt data 0
      omega
    have hfuel : (data.take len.toNat).length < data.length + 1 := by rw [List.length_take]; omega
    refine Outcome.bind (unpackDict_reads hdata (data.length + 1) false _ _ hat hfuel hbegins) ?_
    rintro ⟨v, t⟩ ⟨d, rest, hblock, hd, rfl, -⟩
    have hrest := block_of_front hdata hle (by omega) hlenAt hblock
    rw [hrest, List.append_nil] at hblock
    exact ⟨d, hd, hblock, rfl⟩

/-- The block of a document is decoded to its table. -/
theorem ldecode_block {d : Doc} {len : Int} (hdata : data.length < 2 ^ 31) (hlen : getLength data = .ok len)
    (hle : len ≤ data.length) (hd : d.Ok false) (hblock : data.take len.toNat = d.block) :
    ldecode data = .ok d.value := by
  have htotal := congrArg List.length hblock
  rw [List.length_take, Doc.block, wrap_length] at htotal
  have hpos : 0 ≤ len := by omega
  have hat := at_front hpos hle
  rw [hblock, Doc.block, ← List.append_nil (wrap d.bytes)] at hat
  obtain ⟨t', hdict, -⟩ : ∃ t', unpackDict data (data.length + 1) false { ptr := 0, size := len } =
      .ok (.table (d.table false []), t') ∧ At data t' [] := unpackDict_at hdata hat fun r hr =>
    unpackFields_at hdata d false [] r data.length (d.bytes.length + 1) hd hr (by omega) (by omega)
  rw [ldecode, hlen]
  simp only [bind, Except.bind, hdict]
  rfl

/-- Why a decoding ends with an error. -/
theorem ldecode_explained {len : Int} {e : DecodeError} (hdata : data.length < 2 ^ 31) (hlen : getLength data = .ok len)
    (hle : len ≤ data.length) (h : ldecode data = .error e) : Explained data e :=
  (ldecode_reads hdata hlen hle).of_error h

theorem ldecode_explained_negative :
    Explained [12, 0, 0, 0, 3, 97, 0, 240, 255, 255, 255, 0] (.outside (-10)) := by
  have hlen : getLength [12, 0, 0, 0, 3, 97, 0, 240, 255, 255, 255, 0] = .ok 12 := by decide
  exact ldecode_explained (by decide) hlen (by decide) (by decide)

end Accepted

end Bson
end Skynet
