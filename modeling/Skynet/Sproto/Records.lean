import Skynet.Lib.Mem
import Skynet.Sproto.Encode

/-!
# Skynet.Sproto.Records

The header of `sproto_encode` in memory. `Encode.lean` keeps the records and the data apart; here both are in the
buffer, the records written without a check, the data behind room for `maxn` records, and moved at the end.

* `Capacity` : the records that are there, and all those that may come, fit the header.
* `writeFields_shows` : the loop over the fields keeps the records and the data in their places.
* `header_capacity` : no type and no choice of fields overruns the header, and the buffer is what `sprotoEncode` gives.

The part of the buffer behind what a field has filled may hold anything (`junk`).
-/

namespace Skynet
namespace Sproto

variable {σ : Type}

/-! ### The buffer -/

/-- The variables of `sproto_encode`. The buffer starts at 0; `data` is the next position in it. -/
structure EncodeMem where
  mem : Nat → UInt8
  data : Nat
  size : Nat
  index : Nat
  lasttag : Int

/-- One record: the position only depends on `index`. -/
def putRecord (value : Nat) (v : EncodeMem) : EncodeMem :=
  { v with
    mem := Mem.blit v.mem (SIZEOF_HEADER + SIZEOF_FIELD * v.index) (Endian.le SIZEOF_FIELD value)
    index := v.index + 1 }

/-- The record of a field, behind one for the tags it skips. -/
def writeRecord (f : Field) (value : Nat) (v : EncodeMem) : Option EncodeMem :=
  let tag := f.tag - v.lasttag - 1
  if 0 < tag then
    let skip := (tag - 1) * 2 + 1
    if 0xffff < skip then none
    else some { putRecord value (putRecord skip.toNat v) with lasttag := f.tag }
  else some { putRecord value v with lasttag := f.tag }

/-- How the loop over the fields ends. -/
inductive WriteResult where
  | fail
  | zero (v : EncodeMem)
  | done (v : EncodeMem)

def WriteResult.ofRecord : Option EncodeMem → WriteResult
  | none => .fail
  | some v => .done v

/-- The bytes that a field leaves at the position of the data. -/
def FieldResult.bytes : FieldResult → Bytes
  | .data bs => bs
  | _ => []

/-- What a field writes: first its data, with `junk` behind it, then its record. -/
def writeField (f : Field) (junk : Bytes) (v : EncodeMem) (r : FieldResult) : WriteResult :=
  let v := { v with mem := Mem.blit v.mem v.data (r.bytes ++ junk) }
  match r with
  | .fail => .fail
  | .zero => .zero v
  | .absent => .done v
  | .inline value => .ofRecord (writeRecord f value v)
  | .data bs => .ofRecord (writeRecord f 0 { v with data := v.data + bs.length, size := v.size - bs.length })

def writeFields (cb : EncodeCb σ) (junk : Field → Bytes) :
    List Field → EncodeMem → σ → Except Fault (WriteResult × σ)
  | [], v, ud => .ok (.done v, ud)
  | f :: fs, v, ud => do
    let (r, ud) ← encodeField cb f v.size ud
    match writeField f (junk f) v r with
    | .fail => .ok (.fail, ud)
    | .zero v => .ok (.zero v, ud)
    | .done v => writeFields cb junk fs v ud

def headerSz (st : SprotoType) : Nat := SIZEOF_HEADER + st.maxn * SIZEOF_FIELD

def writeStart (st : SprotoType) (mem : Nat → UInt8) (size : Nat) : EncodeMem :=
  { mem := mem, data := headerSz st, size := size - headerSz st, index := 0, lasttag := -1 }

/-- The number of records, then the data moved behind them: the size returned, and the buffer. -/
def writeHeader (st : SprotoType) (v : EncodeMem) : Nat × (Nat → UInt8) :=
  let mem := Mem.blit v.mem 0 (Endian.le SIZEOF_HEADER v.index)
  let datasz := v.data - headerSz st
  let dest := SIZEOF_HEADER + v.index * SIZEOF_FIELD
  (dest + datasz, if v.index ≠ st.maxn then Mem.blit mem dest (Mem.slice mem (headerSz st) datasz) else mem)

/-- `sproto_encode` on the buffer `mem`. -/
def sprotoEncodeMem (cb : EncodeCb σ) (junk : Field → Bytes) (st : SprotoType) (mem : Nat → UInt8) (size : Nat) (ud : σ) :
    Except Fault (Option (Nat × (Nat → UInt8)) × σ) :=
  if size < headerSz st then .ok (none, ud)
  else do
    let (r, ud) ← writeFields cb junk st.f (writeStart st mem size) ud
    match r with
    | .fail => .ok (none, ud)
    | .zero v => .ok (some (0, v.mem), ud)
    | .done v => .ok (some (writeHeader st v), ud)

/-! ### The capacity of the header -/

/-- The records of a field that is present: one for a gap, and its own. -/
def needs (lasttag : Int) (f : Field) : Nat := (if lasttag + 1 < f.tag then 1 else 0) + 1

/-- `count` records are written, the last one for `lasttag`, and the fields behind the tag `prev` are still to come.
A gap that is wider than in the type is paid for by a field that is absent. -/
structure Capacity (maxn count : Nat) (lasttag prev : Int) (fs : List Field) : Prop where
  ascending : Ascending prev fs
  le_prev : lasttag ≤ prev
  room : count + fs.length + gaps prev fs + (if lasttag < prev then 1 else 0) ≤ maxn

theorem Capacity.of_importType {st : SprotoType} (himp : importType st.f = some st) : Capacity st.maxn 0 (-1) (-1) st.f := by
  obtain ⟨hasc, hmax, -⟩ := maxn_base himp
  exact ⟨hasc, Int.le_refl _, by rw [if_neg (by omega), hmax]; omega⟩

variable {maxn count : Nat} {lasttag prev : Int} {f : Field} {fs : List Field}

theorem Capacity.count_le (h : Capacity maxn count lasttag prev fs) : count ≤ maxn := by
  have := h.room
  omega

theorem Capacity.absent (h : Capacity maxn count lasttag prev (f :: fs)) : Capacity maxn count lasttag f.tag fs := by
  obtain ⟨⟨hlt, hasc⟩, hle, hroom⟩ := h
  refine ⟨hasc, by omega, ?_⟩
  rw [List.length_cons, gaps] at hroom
  rw [if_pos (by omega)]
  split at hroom <;> omega

theorem Capacity.present (h : Capacity maxn count lasttag prev (f :: fs)) :
    Capacity maxn (count + needs lasttag f) f.tag f.tag fs := by
  obtain ⟨⟨hlt, hasc⟩, hle, hroom⟩ := h
  refine ⟨hasc, Int.le_refl _, ?_⟩
  rw [List.length_cons, gaps] at hroom
  rw [if_neg (by omega), needs]
  split at hroom <;> split at hroom <;> split <;> omega

/-- Any of the fields may be present. -/
theorem Capacity.sublist {present : List Field} (h : Capacity maxn count lasttag prev fs) (hsub : present.Sublist fs) :
    count + present.length + gaps lasttag present ≤ maxn := by
  induction hsub generalizing count lasttag prev with
  | slnil => exact h.count_le
  | cons f _ ih => exact ih h.absent
  | cons_cons f _ ih =>
    have := ih h.present
    rw [List.length_cons, gaps]
    rw [needs] at this
    omega

/-! ### The loop over the fields -/

/-- The buffer `v` has the records and the data of `w`, the data behind room for `maxn` records. -/
structure Shows (maxn : Nat) (w : EncodeVars) (v : EncodeMem) : Prop where
  index : w.records.length = v.index
  size : w.size = v.size
  lasttag : w.lasttag = v.lasttag
  data : v.data = 2 + 2 * maxn + w.data.length
  records : Mem.slice v.mem 2 (2 * v.index) = w.records.flatMap (Endian.le 2)
  stored : Mem.slice v.mem (2 + 2 * maxn) w.data.length = w.data

variable {w : EncodeVars} {v : EncodeMem}

theorem Shows.start (st : SprotoType) (mem : Nat → UInt8) (size : Nat) :
    Shows st.maxn { records := [], data := [], size := size - headerSz st, lasttag := -1 } (writeStart st mem size) where
  index := rfl
  size := rfl
  lasttag := rfl
  data := by simp only [writeStart, headerSz, SIZEOF_HEADER, SIZEOF_FIELD, List.length_nil]; omega
  records := rfl
  stored := rfl

/-- A record below the data keeps it. -/
theorem Shows.put (h : Shows maxn w v) (hroom : v.index < maxn) (value : Nat) :
    Shows maxn { w with records := w.records ++ [value] } (putRecord value v) where
  index := by rw [List.length_append, h.index]; rfl
  size := h.size
  lasttag := h.lasttag
  data := h.data
  records := by
    simp only [putRecord, SIZEOF_HEADER, SIZEOF_FIELD, Nat.mul_succ]
    rw [Mem.slice_add, Mem.slice_blit_below (Nat.le_refl _), h.records, List.flatMap_append]
    have := Mem.slice_blit v.mem (2 + 2 * v.index) (Endian.le 2 value)
    rw [Endian.le_length] at this
    rw [this]
    simp
  stored := by
    simp only [putRecord, SIZEOF_HEADER, SIZEOF_FIELD]
    rw [Mem.slice_blit_above (by rw [Endian.le_length]; omega), h.stored]

theorem Shows.tag (h : Shows maxn w v) (tag : Int) : Shows maxn { w with lasttag := tag } { v with lasttag := tag } where
  index := h.index
  size := h.size
  lasttag := rfl
  data := h.data
  records := h.records
  stored := h.stored

/-- Data, with anything behind it, goes above the records. -/
theorem Shows.fill (h : Shows maxn w v) (hroom : v.index ≤ maxn) (bs junk : Bytes) :
    Shows maxn { w with data := w.data ++ bs, size := w.size - bs.length }
      { v with mem := Mem.blit v.mem v.data (bs ++ junk), data := v.data + bs.length, size := v.size - bs.length } where
  index := h.index
  size := by rw [h.size]
  lasttag := h.lasttag
  data := by simp only; rw [h.data, List.length_append]; omega
  records := by
    have := h.data
    simp only
    rw [Mem.slice_blit_below (by omega), h.records]
  stored := by
    simp only
    rw [List.length_append, Mem.slice_add, h.data, ← Mem.blit_append, Mem.slice_blit_below (by omega),
      Mem.slice_blit_below (by omega), h.stored, Mem.slice_blit_below (by omega), Mem.slice_blit]

theorem writeRecord_some {value : Nat} {v' : EncodeMem} (h : writeRecord f value v = some v') :
    v'.index = v.index + needs v.lasttag f ∧ v'.lasttag = f.tag := by
  unfold writeRecord at h
  unfold needs
  dsimp only at h
  split at h
  · split at h
    · cases h
    · cases h
      rw [if_pos (by omega)]
      exact ⟨rfl, rfl⟩
  · cases h
    rw [if_neg (by omega)]
    exact ⟨rfl, rfl⟩

/-- With room for what the field needs, the check of `addRecord` does not fail. -/
theorem Shows.record (h : Shows maxn w v) (hroom : v.index + needs v.lasttag f ≤ maxn) (value : Nat) :
    (addRecord maxn f value w = .ok none ∧ writeRecord f value v = none) ∨
    ∃ w' v', addRecord maxn f value w = .ok (some w') ∧ writeRecord f value v = some v' ∧ Shows maxn w' v' := by
  have hindex := h.index
  unfold needs at hroom
  simp only [addRecord, writeRecord, h.lasttag]
  by_cases htag : 0 < (f.tag : Int) - v.lasttag - 1
  · rw [if_pos (by omega)] at hroom
    simp only [htag, true_and, if_true]
    split
    · exact .inl ⟨rfl, rfl⟩
    · rw [if_neg (by simp only [List.length_append, List.length_cons, List.length_nil]; omega)]
      refine .inr ⟨_, _, rfl, rfl, ?_⟩
      have hskip := (h.put (by omega) (((f.tag : Int) - v.lasttag - 1 - 1) * 2 + 1).toNat).put
        (by simp only [putRecord]; omega) value
      rw [List.append_assoc] at hskip
      exact hskip.tag f.tag
  · rw [if_neg (by omega)] at hroom
    simp only [htag, false_and, if_false]
    rw [if_neg (by simp only [List.length_append, List.length_cons, List.length_nil]; omega)]
    exact .inr ⟨_, _, rfl, rfl, (h.put (by omega) value).tag f.tag⟩

theorem Shows.present (h : Shows maxn w v) (hcap : Capacity maxn v.index v.lasttag prev (f :: fs)) (value : Nat) :
    (addRecord maxn f value w = .ok none ∧ writeRecord f value v = none) ∨
    ∃ w' v', addRecord maxn f value w = .ok (some w') ∧ writeRecord f value v = some v' ∧ Shows maxn w' v' ∧
      Capacity maxn v'.index v'.lasttag f.tag fs := by
  obtain hnone | ⟨w', v', hw, hv, h'⟩ := h.record hcap.present.count_le value
  · exact .inl hnone
  · obtain ⟨hindex, htag⟩ := writeRecord_some hv
    exact .inr ⟨w', v', hw, hv, h', by rw [hindex, htag]; exact hcap.present⟩

/-- The two loops end in the same way. -/
inductive Agree (maxn : Nat) : Except Fault (EncodeResult × σ) → Except Fault (WriteResult × σ) → Prop
  | error (e : Fault) : Agree maxn (.error e) (.error e)
  | fail (ud : σ) : Agree maxn (.ok (.fail, ud)) (.ok (.fail, ud))
  | zero (v : EncodeMem) (ud : σ) : Agree maxn (.ok (.zero, ud)) (.ok (.zero v, ud))
  | done {w : EncodeVars} {v : EncodeMem} (ud : σ) : Shows maxn w v → v.index ≤ maxn →
      Agree maxn (.ok (.done w, ud)) (.ok (.done v, ud))

theorem writeFields_shows (cb : EncodeCb σ) (junk : Field → Bytes) (h : Shows maxn w v)
    (hcap : Capacity maxn v.index v.lasttag prev fs) (ud : σ) :
    Agree maxn (encodeFields cb maxn fs w ud) (writeFields cb junk fs v ud) := by
  induction fs generalizing w v prev ud with
  | nil => exact .done ud h hcap.count_le
  | cons f fs ih =>
    have hempty : Shows maxn w { v with mem := Mem.blit v.mem v.data ([] ++ junk f) } := by
      have := h.fill hcap.count_le [] (junk f)
      rwa [List.append_nil] at this
    rw [encodeFields, writeFields, h.size]
    cases encodeField cb f v.size ud with
    | error e => exact .error e
    | ok rud =>
      obtain ⟨r, ud⟩ := rud
      cases r with
      | fail => exact .fail ud
      | zero => exact .zero _ ud
      | absent => exact ih hempty hcap.absent ud
      | inline value =>
        simp only [bind, Except.bind, putField, writeField, FieldResult.bytes]
        obtain ⟨hw, hv⟩ | ⟨w', v', hw, hv, h', hcap'⟩ := hempty.present hcap value
        · rw [hw, hv]
          exact .fail ud
        · rw [hw, hv]
          exact ih h' hcap' ud
      | data bs =>
        simp only [bind, Except.bind, putField, writeField, FieldResult.bytes]
        obtain ⟨hw, hv⟩ | ⟨w', v', hw, hv, h', hcap'⟩ := (h.fill hcap.count_le bs (junk f)).present hcap 0
        · rw [hw, hv]
          exact .fail ud
        · rw [hw, hv]
          exact ih h' hcap' ud

/-- The records are those of some of the fields: one for each, and one for each gap between them. -/
theorem writeFields_present {cb : EncodeCb σ} {junk : Field → Bytes} {v' : EncodeMem} {ud ud' : σ}
    (h : writeFields cb junk fs v ud = .ok (.done v', ud')) :
    ∃ present, present.Sublist fs ∧ v'.index = v.index + present.length + gaps v.lasttag present := by
  induction fs generalizing v ud with
  | nil =>
    cases h
    exact ⟨[], .slnil, rfl⟩
  | cons f fs ih =>
    have hpresent : ∀ (value : Nat) (u : EncodeMem) (ud : σ), u.index = v.index → u.lasttag = v.lasttag →
        (match WriteResult.ofRecord (writeRecord f value u) with
          | .fail => .ok (.fail, ud)
          | .zero u => .ok (.zero u, ud)
          | .done u => writeFields cb junk fs u ud) =
          (.ok (.done v', ud') : Except Fault (WriteResult × σ)) →
        ∃ present, present.Sublist (f :: fs) ∧ v'.index = v.index + present.length + gaps v.lasttag present := by
      intro value u ud hindex htag hrun
      cases hrec : writeRecord f value u with
      | none =>
        rw [hrec] at hrun
        cases hrun
      | some u' =>
        rw [hrec] at hrun
        obtain ⟨present, hsub, hcount⟩ := ih hrun
        obtain ⟨hi, ht⟩ := writeRecord_some hrec
        refine ⟨f :: present, hsub.cons_cons f, ?_⟩
        rw [hcount, hi, ht, hindex, htag, List.length_cons, gaps, needs]
        omega
    rw [writeFields] at h
    cases hfield : encodeField cb f v.size ud with
    | error e =>
      rw [hfield] at h
      cases h
    | ok rud =>
      obtain ⟨r, ud₁⟩ := rud
      rw [hfield] at h
      cases r with
      | fail => cases h
      | zero => cases h
      | absent =>
        obtain ⟨present, hsub, hcount⟩ := ih h
        exact ⟨present, hsub.cons f, hcount⟩
      | inline value => exact hpresent value { v with mem := Mem.blit v.mem v.data ([] ++ junk f) } ud₁ rfl rfl h
      | data bs =>
        exact hpresent 0 { v with
          mem := Mem.blit v.mem v.data (bs ++ junk f)
          data := v.data + bs.length
          size := v.size - bs.length } ud₁ rfl rfl h

/-! ### The header -/

/-- The number, the records, and the data right behind them, whether it is moved or not. -/
theorem Shows.header {st : SprotoType} (h : Shows st.maxn w v) :
    Mem.slice (writeHeader st v).2 0 (writeHeader st v).1 =
      Endian.le SIZEOF_HEADER w.records.length ++ w.records.flatMap (Endian.le SIZEOF_FIELD) ++ w.data := by
  have hsz : headerSz st = 2 + 2 * st.maxn := by simp only [headerSz, SIZEOF_HEADER, SIZEOF_FIELD]; omega
  have hdata : v.data - headerSz st = w.data.length := by rw [h.data, hsz]; omega
  have hdest : SIZEOF_HEADER + v.index * SIZEOF_FIELD = 2 + 2 * v.index := by
    simp only [SIZEOF_HEADER, SIZEOF_FIELD]; omega
  have hlen : (Endian.le 2 v.index).length = 2 := Endian.le_length 2 v.index
  have hcount := Mem.slice_blit v.mem 0 (Endian.le 2 v.index)
  rw [hlen] at hcount
  have hmove : ∀ m : Nat → UInt8,
      Mem.slice (if v.index ≠ st.maxn then Mem.blit m (2 + 2 * v.index) (Mem.slice m (2 + 2 * st.maxn) w.data.length) else m)
        0 (2 + 2 * v.index + w.data.length) = Mem.slice m 0 (2 + 2 * v.index) ++ Mem.slice m (2 + 2 * st.maxn) w.data.length := by
    intro m
    split
    · have := Mem.slice_blit_append m (2 + 2 * v.index) (Mem.slice m (2 + 2 * st.maxn) w.data.length)
      rwa [Mem.slice_length] at this
    · rename_i heq
      rw [Mem.slice_add, Nat.zero_add, not_not.mp heq]
  simp only [writeHeader]
  rw [hdata, hdest, hsz, hmove, Mem.slice_add, SIZEOF_HEADER, hcount, Nat.zero_add,
    Mem.slice_blit_above (by omega), Mem.slice_blit_above (by omega), h.records, h.stored, h.index]
  rfl

/-- Whatever fields are present and wherever the loop stands, the records are inside of the header, and the buffer
holds at the end what `sprotoEncode` gives: the records, and right behind them the data. -/
theorem header_capacity {st : SprotoType} (himp : importType st.f = some st) :
    (∀ present, present.Sublist st.f → present.length + gaps (-1) present ≤ st.maxn) ∧
    ∀ (cb : EncodeCb σ) (junk : Field → Bytes) (mem : Nat → UInt8) (size : Nat) (ud : σ),
      (∀ fs fs' v ud', st.f = fs ++ fs' →
        writeFields cb junk fs (writeStart st mem size) ud = .ok (.done v, ud') →
        ∃ present, present.Sublist fs ∧ v.index = present.length + gaps (-1) present ∧ v.index ≤ st.maxn) ∧
      sprotoEncode cb st size ud =
        (sprotoEncodeMem cb junk st mem size ud).map fun r => (r.1.map fun n => Mem.slice n.2 0 n.1, r.2) := by
  have hcap := Capacity.of_importType himp
  have hcount : ∀ present, present.Sublist st.f → present.length + gaps (-1) present ≤ st.maxn := by
    intro present hsub
    have := hcap.sublist hsub
    omega
  refine ⟨hcount, fun cb junk mem size ud => ⟨?_, ?_⟩⟩
  · intro fs fs' v ud' hfs hrun
    obtain ⟨present, hsub, hindex⟩ := writeFields_present hrun
    have hindex : v.index = present.length + gaps (-1) present := by
      rw [hindex]
      simp only [writeStart]
      omega
    refine ⟨present, hsub, hindex, hindex ▸ hcount present (hsub.trans ?_)⟩
    rw [hfs]
    exact List.sublist_append_left fs fs'
  · rw [sprotoEncode, sprotoEncodeMem]
    change (if size < headerSz st then _ else _) = _
    split
    · rfl
    · have hagree := writeFields_shows cb junk (Shows.start st mem size) hcap ud
      change (encodeFields cb st.maxn st.f { records := [], data := [], size := size - headerSz st, lasttag := -1 } ud >>= _) = _
      generalize encodeFields cb st.maxn st.f { records := [], data := [], size := size - headerSz st, lasttag := -1 } ud = r at hagree ⊢
      generalize writeFields cb junk st.f (writeStart st mem size) ud = r' at hagree ⊢
      cases hagree with
      | error e => rfl
      | fail ud => rfl
      | zero v ud => rfl
      | done ud hshows _ =>
        simp only [bind, Except.bind, Except.map, Option.map_some]
        rw [hshows.header]

/-- Two fields with a gap before each of them: the header has room for four records. -/
def sparse : SprotoType :=
  { base := -1, maxn := 4, f := [⟨1, .string, false, [97], -1⟩, ⟨3, .string, false, [98], -1⟩] }

/-- Without the first field there are two records, and the data moves by four bytes. -/
theorem header_capacity_sparse :
    (sprotoEncodeMem (fun args ud => .ok (if args.tagid = 1 then .nil else .wrote [120], ud)) (fun _ => [7, 7]) sparse
      (fun _ => 9) 100 ()).map (fun r => (r.1.map fun n => Mem.slice n.2 0 n.1, r.2)) =
        .ok (some [2, 0, 5, 0, 0, 0, 1, 0, 0, 0, 120], ()) := by
  have himp : importType sparse.f = some sparse := by decide
  have h := ((header_capacity himp).2 (fun args ud => .ok (if args.tagid = 1 then .nil else .wrote [120], ud))
    (fun _ => [7, 7]) (fun _ => 9) 100 ()).2
  rw [← h]
  rfl

end Sproto
end Skynet
