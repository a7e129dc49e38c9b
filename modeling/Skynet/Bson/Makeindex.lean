import Skynet.Bson.RoundTrip
import Skynet.Lua.Setting

/-!
# Skynet.Bson.Makeindex

`makeindex` of `lua-bson.c`: the types and the offsets of the fields of a block that have a fixed size.

* `Doc.index` : the index of a document.
* `makeindex_block` : what `makeindex` finds in the block of a document.
-/

namespace Skynet
namespace Bson

open Lua
open Seri (toInt32)

section Makeindex

variable (data : Bytes)

/-- The switch of `lmakeindex`: `field_size`, and the reader behind a value that has none. -/
def indexField (br : Reader) : Kind → Except DecodeError (Nat × Reader)
  | .int64 | .timestamp | .date | .real => .ok (8, br)
  | .boolean => .ok (1, br)
  | .jscode | .symbol | .string => do
    let (sz, br) ← readInt32 data br
    let (_, br) ← readBytes br sz
    .ok (0, br)
  | .codews | .array | .document => do
    let (sz, br) ← readInt32 data br
    let (_, br) ← readBytes br (← int (sz - 4))
    .ok (0, br)
  | .binary => do
    let (sz, br) ← readInt32 data br
    let (_, br) ← readBytes br (← int (sz + 1))
    .ok (0, br)
  | .objectid => .ok (12, br)
  | .minkey | .maxkey | .null => .ok (0, br)
  | .regex => do
    let (_, br) ← readCstring data br
    let (_, br) ← readCstring data br
    .ok (0, br)
  | .int32 => .ok (4, br)
  | .dbpointer => do
    let (sz, br) ← readInt32 data br
    let (_, br) ← readBytes br (← int (sz + 12))
    .ok (0, br)

def BSON_TYPE_SHIFT : Nat := 5

/-- `bt | (int)(br.ptr - start) << BSON_TYPE_SHIFT` -/
def fieldId (bt : Nat) (offset : Int) : Except DecodeError Nat :=
  if offset * 2 ^ BSON_TYPE_SHIFT < 2 ^ 31 then .ok (bt ||| offset.toNat <<< BSON_TYPE_SHIFT) else .error .overflow

/-- The loop of `lmakeindex`. -/
def indexLoop : Nat → Entries → Reader → Except DecodeError Entries
  | 0, _, _ => .error .fuel
  | fuel + 1, es, br =>
    if br.size = 0 then .ok es
    else do
      let (bt, br) ← readByte data br
      let (key, br) ← readCstring data br
      match Kind.ofCode bt with
      | none => .error (.type bt)
      | some k => do
        let (size, br) ← indexField data br k
        if 0 < size then do
          let id ← fieldId bt br.ptr
          let (_, br) ← readBytes br size
          indexLoop fuel (setKey es (.string key) (.integer (BitVec.ofNat 64 id))) br
        else indexLoop fuel es br

/-- `makeindex` -/
def lmakeindex : Except DecodeError Entries := do
  let len ← getLength data
  let size ← int (len - 5)
  indexLoop data (data.length + 1) [] { ptr := 4, size := size }

end Makeindex

/-! ### The index of a document -/

namespace Kind

/-- The bytes of a value that is in the index. -/
def fixedSize : Kind → Nat
  | int64 | timestamp | date | real => 8
  | boolean => 1
  | objectid => 12
  | int32 => 4
  | _ => 0

end Kind

def idOf (k : Kind) (offset : Nat) : Nat := k.code ||| offset <<< BSON_TYPE_SHIFT

def indexEntry (es : Entries) (key : Bytes) (k : Kind) (offset : Nat) : Entries :=
  if 0 < k.fixedSize then setKey es (.string key) (.integer (BitVec.ofNat 64 (idOf k offset))) else es

/-- The key, the kind and the size of a field. -/
structure Place where
  key : Bytes
  kind : Kind
  size : Nat

/-- How much room the field takes up. -/
def Place.room (p : Place) : Nat := p.key.length + 2 + p.size

/-- The index of fields of which the first one is at an offset. -/
def indexOf : List Place → Nat → Entries → Entries
  | [], _, es => es
  | p :: ps, off, es => indexOf ps (off + p.room) (indexEntry es p.key p.kind (off + p.key.length + 2))

namespace Doc

def places : Doc → List Place
  | nil => []
  | field key v rest => ⟨key, v.kind, v.bytes.length⟩ :: rest.places
  | nested array key inner rest => ⟨key, tableKind array, inner.bytes.length + 5⟩ :: rest.places

def index (d : Doc) : Entries := indexOf d.places 4 []

end Doc

section Block

variable {data : Bytes} {t : Reader} {rest : Bytes}

theorem scalar_fixedSize {s : Scalar} (hok : s.Ok rest) (h : 0 < s.kind.fixedSize) :
    s.bytes.length = s.kind.fixedSize := by
  cases s with
  | objectid id => exact hok
  | raw k bs => cases k <;> exact absurd h (Nat.lt_irrefl 0)
  | string _ _ | binary _ _ | regex _ _ | null | minkey | maxkey => exact absurd h (Nat.lt_irrefl 0)
  | _ => simp [Scalar.bytes, Scalar.kind, Kind.fixedSize]

theorem indexField_fixed {k : Kind} (h : 0 < k.fixedSize) : indexField data t k = .ok (k.fixedSize, t) := by
  cases k <;> first | rfl | exact absurd h (by decide)

/-- A length in front, of which the bytes behind it are a part or not. -/
theorem indexRaw_eq {k : Raw} {sz p : Int} (hread : readInt32 data t = .ok (sz, t.skip 4))
    (hbytes : readBytes (t.skip 4) (sz + k.extra - 4) = .ok (p, t.skip (sz + k.extra))) (hzero : 0 ≤ sz + k.extra)
    (hlt : sz + k.extra < 2 ^ 31) : indexField data t k.kind = .ok (0, t.skip (sz + k.extra)) := by
  cases k with
  | dbpointer =>
    simp only [Raw.extra] at hbytes hzero hlt ⊢
    rw [show sz + 16 - 4 = sz + 12 by omega] at hbytes
    simp only [Raw.kind, indexField, hread, bind, Except.bind, int_ok (n := sz + 12) (by omega) (by omega), hbytes]
  | jscode | symbol =>
    simp only [Raw.extra] at hbytes hzero hlt ⊢
    rw [show sz + 4 - 4 = sz by omega] at hbytes
    simp only [Raw.kind, indexField, hread, bind, Except.bind, hbytes]
  | codews =>
    simp only [Raw.extra, Int.add_zero] at hbytes hzero hlt ⊢
    simp only [Raw.kind, indexField, hread, bind, Except.bind, int_ok (n := sz - 4) (by omega) (by omega), hbytes]

theorem indexRaw_at {bs : Bytes} {k : Raw} (h : At data t (bs ++ rest)) (hdata : data.length < 2 ^ 31)
    (hok : (Scalar.raw k bs).Ok rest) : indexField data t k.kind = .ok (0, t.skip bs.length) := by
  have hlt := h.length_lt hdata
  rw [List.length_append] at hlt
  obtain ⟨hfour, hT⟩ := hok
  obtain ⟨hread, hbytes, -, -⟩ := raw_at h hdata hfour hT
  rw [← hT]
  exact indexRaw_eq hread hbytes (by omega) (by omega)

theorem indexBinary_eq {t' t'' : Reader} {sz m p : Int} (hread : readInt32 data t = .ok (sz, t'))
    (hint : int (sz + 1) = .ok m)
    (hbytes : readBytes t' m = .ok (p, t'')) : indexField data t .binary = .ok (0, t'') := by
  simp only [indexField, hread, bind, Except.bind, hint, hbytes]

theorem indexNested_eq {a : Bool} {t' t'' : Reader} {sz m p : Int} (hread : readInt32 data t = .ok (sz, t'))
    (hint : int (sz - 4) = .ok m) (hbytes : readBytes t' m = .ok (p, t'')) :
    indexField data t (tableKind a) = .ok (0, t'') := by
  cases a <;> simp only [tableKind, Bool.false_eq_true, if_false, if_true, indexField, hread, bind, Except.bind, hint,
    hbytes]

/-- A length, and the bytes behind it. -/
theorem skipLength_at {n : Nat} {xs : Bytes} {m : Int} (h : At data t (Endian.le 4 n ++ (xs ++ rest)))
    (hdata : data.length < 2 ^ 31) (hn : n < 2 ^ 31) (hm : m = xs.length) :
    readInt32 data t = .ok (n, t.skip 4) ∧ int m = .ok m ∧
      ∃ p, readBytes (t.skip 4) m = .ok (p, t.skip ((4 + xs.length : Nat) : Int)) := by
  have hlt := h.length_lt hdata
  simp only [List.length_append] at hlt
  obtain ⟨hread, hat⟩ := readLength_at hn h
  subst hm
  have hbytes := readBytes_at hat hdata rfl
  rw [skip_skip] at hbytes
  exact ⟨hread, int_ok (by omega) (by omega), _, hbytes⟩

theorem indexField_variable (s : Scalar) (h : At data t (s.bytes ++ rest)) (hdata : data.length < 2 ^ 31)
    (hok : s.Ok rest) (hsize : s.kind.fixedSize = 0) : indexField data t s.kind = .ok (0, t.skip s.bytes.length) := by
  have hlt := h.length_lt hdata
  cases s with
  | string s last =>
    have h' : At data t (Endian.le 4 (s.length + 1) ++ ((s ++ [last]) ++ rest)) := by simpa [Scalar.bytes] using h
    have hlen : (Scalar.string s last).bytes.length = 4 + (s ++ [last]).length := by simp [Scalar.bytes]
    rw [List.length_append, hlen, List.length_append] at hlt
    obtain ⟨hread, -, p, hbytes⟩ := skipLength_at (m := ((s.length + 1 : Nat) : Int)) h' hdata (by omega) (by simp)
    rw [hlen]
    simp only [Scalar.kind, indexField, hread, bind, Except.bind, hbytes]
  | binary subtype bs =>
    have h' : At data t (Endian.le 4 bs.length ++ ((subtype :: bs) ++ rest)) := by simpa [Scalar.bytes] using h
    have hlen : (Scalar.binary subtype bs).bytes.length = 4 + (subtype :: bs).length := by simp [Scalar.bytes]
    rw [List.length_append, hlen, List.length_cons] at hlt
    obtain ⟨hread, hint, p, hbytes⟩ := skipLength_at (m := (bs.length : Int) + 1) h' hdata (by omega) (by simp)
    rw [hlen]
    exact indexBinary_eq hread hint hbytes
  | null | minkey | maxkey => simp [Scalar.kind, indexField, Scalar.bytes, Reader.skip]
  | regex r1 r2 =>
    obtain ⟨h1, h2⟩ := hok
    rw [Scalar.bytes, List.append_assoc, List.cons_append, List.append_assoc] at h
    obtain ⟨hread, hat⟩ := readCstring_at h h1
    obtain ⟨hread', -⟩ := readCstring_at hat h2
    have hskip : t.skip (Scalar.regex r1 r2).bytes.length = (t.skip (r1.length + 1)).skip (r2.length + 1) := by
      rw [skip_skip, Scalar.bytes]
      congr 1
      simp
      omega
    rw [hskip]
    simp only [Scalar.kind, indexField, hread, bind, Except.bind, hread']
  | raw k bs => exact indexRaw_at h hdata hok
  | real _ | objectid _ | boolean _ | date _ | int32 _ | timestamp _ _ | int64 _ =>
    exact absurd hsize (by simp [Scalar.kind, Kind.fixedSize])

theorem indexField_nested {a : Bool} {body : Bytes} (h : At data t (wrap body ++ rest)) (hdata : data.length < 2 ^ 31) :
    indexField data t (tableKind a) = .ok (0, t.skip (wrap body).length) := by
  have hlt := h.length_lt hdata
  have h' : At data t (Endian.le 4 (body.length + 5) ++ ((body ++ [0]) ++ rest)) := by simpa [wrap] using h
  have hlen : (wrap body).length = 4 + (body ++ [0]).length := by simp [wrap]
  have hm : ((body.length + 5 : Nat) : Int) - 4 = (body ++ [0]).length := by
    rw [List.length_append, List.length_singleton]
    omega
  rw [List.length_append, wrap_length] at hlt
  obtain ⟨hread, hint, p, hbytes⟩ := skipLength_at h' hdata (by omega) hm
  rw [hlen]
  exact indexNested_eq hread hint hbytes

theorem fieldId_ok {k : Kind} {off : Nat} (h : off * 32 < 2 ^ 31) : fieldId k.code (off : Int) = .ok (idOf k off) := by
  have hlt : (off : Int) * 2 ^ BSON_TYPE_SHIFT < 2 ^ 31 := by
    rw [BSON_TYPE_SHIFT]
    omega
  rw [fieldId, if_pos hlt]
  rfl

/-- How the loop goes on behind the value of a field. -/
structure Indexed (data : Bytes) (k : Kind) (X rest : Bytes) : Prop where
  fixed : 0 < k.fixedSize → X.length = k.fixedSize
  other : k.fixedSize = 0 → ∀ t, At data t (X ++ rest) → indexField data t k = .ok (0, t.skip X.length)

theorem indexLoop_step {key X : Bytes} {k : Kind} {off : Nat} (hdata : data.length < 2 ^ 31)
    (hX : Indexed data k X rest)
    (hat : At data t (k.byte :: (key ++ 0 :: (X ++ rest)))) (hkey : 0 ∉ key) (hptr : t.ptr = off)
    (hoff : (off + key.length + 2) * 32 < 2 ^ 31) (fuel : Nat) (es : Entries) :
    ∃ t', indexLoop data (fuel + 1) es t = indexLoop data fuel (indexEntry es key k (off + key.length + 2)) t' ∧
      At data t' rest ∧ t'.ptr = ((off + key.length + 2 + X.length : Nat) : Int) := by
  have hsize := hat.size
  rw [List.length_cons] at hsize
  obtain ⟨hbt, hat₁⟩ := readByte_at hat
  obtain ⟨hcstring, hat₂⟩ := readCstring_at hat₁ hkey
  have hptr₂ : ((t.skip 1).skip (key.length + 1)).ptr = ((off + key.length + 2 : Nat) : Int) := by
    simp only [Reader.skip]
    omega
  refine ⟨((t.skip 1).skip (key.length + 1)).skip X.length, ?_, hat₂.skip, ?_⟩
  · rw [Kind.byte_toNat] at hbt
    rw [indexLoop, if_neg (by omega), hbt]
    by_cases hfixed : 0 < k.fixedSize
    · have hbytes := readBytes_at (n := (k.fixedSize : Int)) hat₂ hdata (by rw [hX.fixed hfixed])
      rw [hX.fixed hfixed, indexEntry, if_pos hfixed]
      simp only [bind, Except.bind, hcstring, Kind.ofCode_code, indexField_fixed hfixed, if_pos hfixed, hptr₂,
        fieldId_ok hoff, hbytes]
    · have hfield := hX.other (by omega) _ hat₂
      rw [indexEntry, if_neg hfixed]
      simp only [bind, Except.bind, hcstring, Kind.ofCode_code, hfield]
      rfl
  · rw [Reader.skip, hptr₂]
    exact (Int.natCast_add _ _).symm

theorem indexed_scalar {v : Scalar} (hdata : data.length < 2 ^ 31) (hok : v.Ok rest) :
    Indexed data v.kind v.bytes rest where
  fixed h := scalar_fixedSize hok h
  other h _ hat := indexField_variable v hat hdata hok h

theorem indexed_nested {a : Bool} {body : Bytes} (hdata : data.length < 2 ^ 31) :
    Indexed data (tableKind a) (wrap body) rest where
  fixed h := by cases a <;> exact absurd h (Nat.lt_irrefl 0)
  other _ _ hat := indexField_nested hat hdata

/-- The offsets stay small. -/
theorem index_room {off k x r : Nat} (h : (off + (k + (x + r + 1) + 1)) * 32 < 2 ^ 31) :
    (off + k + 2) * 32 < 2 ^ 31 ∧ (off + k + 2 + x + r) * 32 < 2 ^ 31 := by
  omega

theorem indexLoop_at (hdata : data.length < 2 ^ 31) (d : Doc) : ∀ (off : Nat) (es : Entries) (t : Reader) (fuel : Nat),
    d.Ok false → At data t d.bytes → t.ptr = off → (off + d.bytes.length) * 32 < 2 ^ 31 → d.bytes.length < fuel →
      indexLoop data fuel es t = .ok (indexOf d.places off es) := by
  induction d with
  | nil =>
    intro off es t fuel _ hat _ _ hfuel
    obtain ⟨fuel, rfl⟩ : ∃ n, fuel = n + 1 := ⟨fuel - 1, by omega⟩
    have hsize : t.size = 0 := hat.size
    rw [indexLoop, if_pos hsize]
    rfl
  | field key v rest ih =>
    intro off es t fuel hok hat hptr hoff hfuel
    obtain ⟨hkey, hv, hrest⟩ := hok
    rw [Doc.bytes_field] at hat hoff hfuel
    simp only [List.length_cons, List.length_append] at hoff hfuel
    obtain ⟨hroom, hrestRoom⟩ := index_room hoff
    obtain ⟨fuel, rfl⟩ : ∃ n, fuel = n + 1 := ⟨fuel - 1, by omega⟩
    have hX := indexed_scalar hdata hv
    obtain ⟨t', hstep, hat', hptr'⟩ := indexLoop_step hdata hX hat hkey.1 hptr hroom fuel es
    rw [hstep, Doc.places, indexOf, Place.room, ← Nat.add_assoc, ← Nat.add_assoc]
    exact ih _ _ t' fuel hrest hat' hptr' hrestRoom (by omega)
  | nested a key inner rest _ ih =>
    intro off es t fuel hok hat hptr hoff hfuel
    obtain ⟨hkey, -, hrest⟩ := hok
    rw [Doc.bytes_nested] at hat hoff hfuel
    simp only [List.length_cons, List.length_append] at hoff hfuel
    obtain ⟨hroom, hrestRoom⟩ := index_room hoff
    obtain ⟨fuel, rfl⟩ : ∃ n, fuel = n + 1 := ⟨fuel - 1, by omega⟩
    have hX : Indexed data (tableKind a) (wrap inner.bytes) rest.bytes := indexed_nested hdata
    obtain ⟨t', hstep, hat', hptr'⟩ := indexLoop_step hdata hX hat hkey.1 hptr hroom fuel es
    rw [wrap_length] at hptr' hrestRoom
    rw [hstep, Doc.places, indexOf, Place.room, ← Nat.add_assoc, ← Nat.add_assoc]
    exact ih _ _ t' fuel hrest hat' hptr' hrestRoom (by omega)

/-- What `makeindex` finds in the block of a document. -/
theorem makeindex_block {d : Doc} (hd : d.Ok false) (hsize : d.block.length < 2 ^ 26) :
    lmakeindex d.block = .ok d.index := by
  have hlen := wrap_length d.bytes
  rw [← Doc.block] at hlen
  have hblock : d.block = Endian.le 4 (d.bytes.length + 5) ++ d.bytes ++ [0] := rfl
  have hat : At d.block { ptr := 4, size := d.bytes.length } d.bytes := by
    refine ⟨by simp, rfl, ⟨[0], ?_⟩, by simp only; omega⟩
    rw [hblock, List.append_assoc]
    exact List.drop_left' (Endian.le_length 4 _)
  have hint : int ((d.block.length : Int) - 5) = .ok (d.bytes.length : Int) := by
    rw [show (d.block.length : Int) - 5 = d.bytes.length by omega]
    exact int_ok (by omega) (by omega)
  have hloop := indexLoop_at (by omega) d 4 [] _ (d.block.length + 1) hd hat rfl (by omega) (by omega)
  rw [lmakeindex, getLength_block (by omega)]
  simp only [bind, Except.bind, hint, hloop]
  rfl

end Block

end Bson
end Skynet
