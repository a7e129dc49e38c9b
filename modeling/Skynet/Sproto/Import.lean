import Skynet.Sproto.Bundle
import Skynet.Sproto.Create
import Skynet.Sproto.Items

/-!
# Skynet.Sproto.Import

The importers of `sproto.c` on the bytes that `packgroup` writes.

* `structField_message` : a struct is accepted if it has data for each value that is 0.
* `importField_packed`, `importTypeAt_packed`, `importProtocol_packed` : what each importer gives.
-/

namespace Skynet
namespace Sproto

variable {buf : Bytes}

/-! ### Reading -/

theorem readLe_bytes {off : Nat} {bs : Bytes} (h : Holds buf off bs) (hne : 0 < bs.length) :
    readLe buf bs.length off = .ok (Endian.ofLe bs) := by
  rw [readLe, if_pos (h.bound hne), h.take]

theorem importString_holds {off : Nat} {name : Bytes} (h : Holds buf off (filled name)) (hlen : name.length < 2 ^ 32) :
    importString buf off = .ok name := by
  have hbound := h.bound (by rw [filled_length]; omega)
  have hL : SIZEOF_LENGTH = 4 := rfl
  rw [filled_length] at hbound
  rw [importString, h.filled_size hlen]
  simp only [bind, Except.bind]
  rw [if_pos (by omega), h.filled_body.take]

/-! ### Structs and arrays -/

theorem structLoop_message {values : List Nat} {datas : List Bytes} {field stream : Nat} (hv : ∀ v ∈ values, v < 2 ^ 16)
    (hd : ∀ d ∈ datas, 4 + d.length < 2 ^ 32) (hvalues : Holds buf field (values.flatMap (Endian.le 2)))
    (hdatas : Holds buf stream (datas.flatMap filled)) :
    structLoop buf values.length field stream (datas.flatMap filled).length = .ok (decide (values.count 0 ≤ datas.length)) := by
  induction values generalizing datas field stream with
  | nil => simp [structLoop]
  | cons v values ih =>
    rw [List.flatMap_cons] at hvalues
    have hrest : Holds buf (field + SIZEOF_FIELD) (values.flatMap (Endian.le 2)) := Endian.le_length 2 v ▸ hvalues.right
    have hvs : ∀ w ∈ values, w < 2 ^ 16 := fun w hw => hv w (List.mem_cons_of_mem _ hw)
    rw [List.length_cons, structLoop, toword_holds hvalues.left (hv v (List.mem_cons_self ..))]
    simp only [bind, Except.bind]
    by_cases hzero : v = 0
    · subst hzero
      rw [if_neg (by simp), List.count_cons_self]
      cases datas with
      | nil =>
        rw [if_pos (by decide)]
        simp
      | cons d datas =>
        rw [List.flatMap_cons] at hdatas ⊢
        have hL : SIZEOF_LENGTH = 4 := rfl
        have hlen := hd d (List.mem_cons_self ..)
        have htail : Holds buf (stream + (SIZEOF_LENGTH + d.length)) (datas.flatMap filled) := by
          have := hdatas.right
          rwa [filled_length, Nat.add_comm d.length 4] at this
        rw [List.length_append, filled_length, if_neg (by omega), hdatas.left.filled_size (by omega)]
        simp only
        rw [Nat.mod_eq_of_lt (by omega), if_neg (by omega),
          show d.length + 4 + (datas.flatMap filled).length - (SIZEOF_LENGTH + d.length) = (datas.flatMap filled).length by omega,
          ih hvs (fun e he => hd e (List.mem_cons_of_mem _ he)) hrest htail, List.length_cons]
        simp
    · rw [if_pos hzero, ih hvs hd hrest hdatas, List.count_cons_of_ne hzero]

theorem message_length (values : List Nat) (datas : List Bytes) :
    (message values datas).length = 2 + 2 * values.length + (datas.flatMap filled).length := by
  have hvalues : (values.flatMap (Endian.le 2)).length = 2 * values.length := by
    rw [List.length_flatMap]
    simp [Nat.mul_comm]
  rw [message, List.length_append, List.length_append, Endian.le_length, hvalues]

/-- Where the values of a struct and its data are. -/
theorem Holds.message {off : Nat} {values : List Nat} {datas : List Bytes} (h : Holds buf off (message values datas)) :
    Holds buf off (Endian.le 2 values.length) ∧ Holds buf (off + SIZEOF_HEADER) (values.flatMap (Endian.le 2)) ∧
      Holds buf (off + SIZEOF_HEADER + values.length * SIZEOF_FIELD) (datas.flatMap filled) := by
  refine ⟨h.left.left, Endian.le_length 2 values.length ▸ h.left.right, ?_⟩
  have hdatas := h.right
  have hvalues : (values.flatMap (Endian.le 2)).length = values.length * SIZEOF_FIELD := by
    rw [List.length_flatMap]
    simp [SIZEOF_FIELD]
  rw [List.length_append, Endian.le_length, hvalues, ← Nat.add_assoc] at hdatas
  exact hdatas

/-- A struct is accepted if it has data for each value that is 0. -/
theorem structField_message {off : Nat} {values : List Nat} {datas : List Bytes} (h : Holds buf off (message values datas))
    (hne : 0 < values.length) (hn : values.length < 2 ^ 16) (hv : ∀ v ∈ values, v < 2 ^ 16)
    (hd : ∀ d ∈ datas, 4 + d.length < 2 ^ 32) :
    structField buf off (message values datas).length =
      .ok (if values.count 0 ≤ datas.length then some values.length else none) := by
  obtain ⟨hfn, hvalues, hdatas⟩ := h.message
  have hL : SIZEOF_LENGTH = 4 := rfl
  have hH : SIZEOF_HEADER = 2 := rfl
  have hF : SIZEOF_FIELD * values.length = 2 * values.length := rfl
  have hF' : values.length * SIZEOF_FIELD = values.length * 2 := rfl
  rw [structField, message_length, if_neg (by omega), toword_holds hfn hn]
  simp only [bind, Except.bind]
  rw [if_neg (by omega),
    show 2 + 2 * values.length + (datas.flatMap filled).length - (SIZEOF_HEADER + SIZEOF_FIELD * values.length) =
      (datas.flatMap filled).length by omega,
    show off + (SIZEOF_HEADER + SIZEOF_FIELD * values.length) = off + SIZEOF_HEADER + values.length * SIZEOF_FIELD by omega,
    structLoop_message hv hd hvalues hdatas]
  simp only [decide_eq_true_eq]

/-- The items of an array are counted. -/
theorem countLoop_items {α : Type} {g : α → Bytes} {xs : List α} {stream fuel n : Nat}
    (h : Holds buf stream (xs.flatMap fun x => filled (g x))) (hlen : (xs.flatMap fun x => filled (g x)).length < 2 ^ 32)
    (hfuel : (xs.flatMap fun x => filled (g x)).length < fuel) :
    countLoop buf fuel stream (xs.flatMap fun x => filled (g x)).length n = .ok (some (n + xs.length)) := by
  have hL : SIZEOF_LENGTH = 4 := rfl
  induction xs generalizing stream fuel n with
  | nil =>
    obtain ⟨fuel, rfl⟩ : ∃ k, fuel = k + 1 := ⟨fuel - 1, by omega⟩
    rfl
  | cons x xs ih =>
    obtain ⟨fuel, rfl⟩ : ∃ k, fuel = k + 1 := ⟨fuel - 1, by omega⟩
    rw [List.flatMap_cons] at h hlen hfuel ⊢
    rw [List.length_append, filled_length] at hlen hfuel ⊢
    have htail := h.right
    rw [filled_length] at htail
    rw [countLoop, if_pos (by omega), if_neg (by omega), h.left.filled_size (by omega)]
    simp only [bind, Except.bind]
    rw [hL, Nat.mod_eq_of_lt (by omega), if_neg (by omega), Nat.add_sub_cancel_left,
      ih htail (by omega) (by omega), List.length_cons, Nat.add_assoc, Nat.add_comm 1]

theorem countArray_items {α : Type} {g : α → Bytes} {xs : List α} {stream : Nat}
    (h : Holds buf stream (filled (xs.flatMap fun x => filled (g x))))
    (hlen : (xs.flatMap fun x => filled (g x)).length < 2 ^ 32) : countArray buf stream = .ok (some xs.length) := by
  rw [countArray, h.filled_size hlen]
  simp only [bind, Except.bind]
  rw [countLoop_items h.filled_body hlen (Nat.lt_succ_self _), Nat.zero_add]

/-! ### Fields -/

/-- The loop of `import_field` on the values of a field. -/
def readValues (type_n : Nat) (name : Bytes) : List Nat → Nat → FieldRead → Option FieldRead
  | [], _, f => some f
  | v :: values, tag, f =>
    if v % 2 = 1 then readValues type_n name values (tag + v / 2 + 1) f
    else if tag = 0 then
      if v ≠ 0 then none else readValues type_n name values (tag + 1) { f with name := some name }
    else if v = 0 then none
    else
      match importFieldTag type_n tag (v / 2 - 1) f with
      | none => none
      | some f => readValues type_n name values (tag + 1) f

theorem importFieldLoop_values {type_n strings at_ tag : Nat} {name : Bytes} {values : List Nat} {f : FieldRead}
    (hv : ∀ v ∈ values, v < 2 ^ 16) (hvalues : Holds buf at_ (values.flatMap (Endian.le 2)))
    (hname : 0 ∈ values → importString buf strings = .ok name) :
    importFieldLoop buf type_n strings values.length at_ tag f = .ok (readValues type_n name values tag f) := by
  induction values generalizing at_ tag f with
  | nil => rfl
  | cons v values ih =>
    rw [List.flatMap_cons] at hvalues
    have hrest : Holds buf (at_ + SIZEOF_FIELD) (values.flatMap (Endian.le 2)) := Endian.le_length 2 v ▸ hvalues.right
    have hvs : ∀ w ∈ values, w < 2 ^ 16 := fun w hw => hv w (List.mem_cons_of_mem _ hw)
    have hnames : 0 ∈ values → importString buf strings = .ok name := fun hw => hname (List.mem_cons_of_mem _ hw)
    rw [List.length_cons, importFieldLoop, toword_holds hvalues.left (hv v (List.mem_cons_self ..)), readValues]
    simp only [bind, Except.bind, ih hvs hrest hnames]
    split
    · rfl
    · split
      · split
        · rfl
        · rename_i hzero
          rw [hname (by rw [not_not.mp hzero]; exact List.mem_cons_self ..)]
      · split
        · rfl
        · cases importFieldTag type_n tag (v / 2 - 1) f <;> rfl

/-- The tag whose value in two bytes is 0. -/
def lastTag : Nat := 2 ^ 63 - 1

theorem wire_eq {id : Nat} (h : Packable id) (hne : id ≠ lastTag) : wire id = 2 * (id + 1) := by
  have hlt := h.1
  rw [lastTag] at hne
  rw [wire, Nat.mod_eq_of_lt (by omega), Nat.mul_comm]

theorem wire_lastTag : wire lastTag = 0 := rfl

theorem readValues_id {type_n tag id : Nat} {name : Bytes} {values : List Nat} {f : FieldRead} (h : Packable id) (hne : id ≠ lastTag)
    (htag : tag ≠ 0) :
    readValues type_n name (wire id :: values) tag f = (importFieldTag type_n tag id f).bind (readValues type_n name values (tag + 1)) := by
  rw [wire_eq h hne, readValues, if_neg (by omega), if_neg htag, if_neg (by omega),
    show 2 * (id + 1) / 2 - 1 = id by omega]
  cases importFieldTag type_n tag id f <;> rfl

theorem readValues_skip {type_n tag : Nat} {name : Bytes} {values : List Nat} {f : FieldRead} :
    readValues type_n name (1 :: values) tag f = readValues type_n name values (tag + 1) f := by
  rw [readValues, if_pos rfl]

theorem readValues_name {type_n : Nat} {name : Bytes} {values : List Nat} {f : FieldRead} :
    readValues type_n name (0 :: values) 0 f = readValues type_n name values 1 { f with name := some name } := rfl

/-- The field that comes out. -/
def PackField.imported (i : PackField) : Field where
  tag := i.tag
  type := match i.buildin with
    | some id => (buildinType id).getD .integer
    | none => .struct (i.type.getD 0)
  array := i.array
  name := i.name
  key := (i.key.map Int.ofNat).getD (-1)

/-- No number of the field is the tag that two bytes do not hold. -/
def PackField.Good (i : PackField) : Prop := ∀ id ∈ i.ids, id ≠ lastTag

instance (i : PackField) : Decidable i.Good := inferInstanceAs (Decidable (∀ id ∈ i.ids, id ≠ lastTag))

/-- The types that a field may refer to. -/
structure PackField.Bound (type_n : Nat) (i : PackField) : Prop where
  buildin : ∀ id, i.buildin = some id → id < 3
  type : ∀ id, i.type = some id → id < type_n
  key : i.key.isSome → i.array = true
  name : i.name.length < 2 ^ 32

theorem PackField.values_eq (i : PackField) :
    i.values = 0 :: (i.kind ++ wire i.tag :: ((if i.array then [wire 1] else []) ++ (i.key.map wire).toList)) := by
  simp only [PackField.values, List.cons_append, List.append_assoc]

theorem values_read {type_n : Nat} {i : PackField} (hp : i.Packed) (hg : i.Good) (hb : i.Bound type_n) :
    (readValues type_n i.name i.values 0 { tag := none, type := none, array := false, name := none, key := -1 }).bind FieldRead.field =
      some i.imported := by
  have hids : ∀ id ∈ i.ids, Packable id ∧ id ≠ lastTag := fun id hid => ⟨hp.ids id hid, hg id hid⟩
  rw [PackField.ids] at hids
  obtain ⟨htag, htagne⟩ := hids i.tag (List.mem_append_right _ (List.mem_cons_self ..))
  have hkey : ∀ k, i.key = some k → Packable k ∧ k ≠ lastTag := fun k hk =>
    hids k (List.mem_append_right _ (List.mem_cons_of_mem _ (by rw [hk]; exact List.mem_singleton_self k)))
  have hone : Packable 1 := ⟨by decide, by decide⟩
  -- the type
  obtain ⟨t, ht, hkind⟩ : ∃ t, i.imported.type = t ∧ ∀ values f, f.type = none →
      readValues type_n i.name (i.kind ++ values) 1 f = readValues type_n i.name values 3 { f with type := some t } := by
    refine ⟨_, rfl, fun values f hf => ?_⟩
    rw [PackField.kind, PackField.imported]
    cases hbuildin : i.buildin with
    | some id =>
      obtain ⟨hid, hidne⟩ := hids id (by rw [hbuildin]; exact List.mem_append_left _ (List.mem_singleton_self id))
      have hlt := hb.buildin id hbuildin
      obtain ⟨t, ht⟩ : ∃ t, buildinType id = some t := by
        obtain rfl | rfl | rfl : id = 0 ∨ id = 1 ∨ id = 2 := by omega
        · exact ⟨_, rfl⟩
        · exact ⟨_, rfl⟩
        · exact ⟨_, rfl⟩
      simp only [List.cons_append, List.nil_append]
      rw [readValues_id hid hidne (by decide), importFieldTag, ht, Option.map_some, Option.bind_some, readValues_skip]
      rfl
    | none =>
      obtain ⟨id, hid⟩ := Option.isSome_iff_exists.mp (hp.kind hbuildin)
      obtain ⟨hpack, hne⟩ := hids id (by rw [hbuildin, hid]; exact List.mem_append_left _ (List.mem_singleton_self id))
      have hlt := hb.type id hid
      rw [hid]
      simp only [Option.map_some, Option.toList_some, List.cons_append, List.nil_append]
      rw [readValues_skip, readValues_id hpack hne (by decide), importFieldTag, if_neg (by simp [hf, hlt]), Option.bind_some]
      rfl
  -- the tag, the array flag and the main key
  rw [i.values_eq, readValues_name, hkind _ _ rfl, readValues_id htag htagne (by decide), importFieldTag, Option.bind_some]
  have hend : ∀ f : FieldRead, f.array = false → f.key = -1 →
      readValues type_n i.name ((if i.array then [wire 1] else []) ++ (i.key.map wire).toList) 4 f =
        some { f with array := i.array, key := (i.key.map Int.ofNat).getD (-1) } := by
    rintro ⟨ftag, ftype, farray, fname, fkey⟩ rfl rfl
    cases ha : i.array with
    | false =>
      cases hk : i.key with
      | none => rfl
      | some k =>
        have := hb.key (by rw [hk]; rfl)
        rw [ha] at this
        cases this
    | true =>
      rw [if_pos rfl, List.singleton_append, readValues_id hone (by decide) (by decide), importFieldTag, if_neg (by decide), Option.bind_some]
      cases hk : i.key with
      | none => rfl
      | some k =>
        obtain ⟨hpack, hne⟩ := hkey k hk
        rw [Option.map_some, Option.toList_some, readValues_id hpack hne (by decide)]
        rfl
  rw [hend _ rfl rfl, ← ht]
  rfl

/-- The values behind the one for the name. -/
theorem PackField.mem_values {i : PackField} {v : Nat}
    (h : v ∈ i.kind ++ wire i.tag :: ((if i.array then [wire 1] else []) ++ (i.key.map wire).toList)) :
    v = 1 ∨ v = wire 1 ∨ ∃ id ∈ i.ids, v = wire id := by
  rw [PackField.ids]
  rcases List.mem_append.mp h with h | h
  · rw [PackField.kind] at h
    cases hb : i.buildin with
    | some id =>
      rw [hb] at h
      rcases List.mem_cons.mp h with rfl | h
      · exact .inr (.inr ⟨id, List.mem_append_left _ (List.mem_singleton_self id), rfl⟩)
      · exact .inl (List.mem_singleton.mp h)
    | none =>
      rw [hb] at h
      rcases List.mem_cons.mp h with rfl | h
      · exact .inl rfl
      · obtain ⟨id, hid, rfl⟩ := Option.map_eq_some_iff.mp (Option.mem_toList.mp h)
        exact .inr (.inr ⟨id, List.mem_append_left _ (Option.mem_toList.mpr hid), rfl⟩)
  · rcases List.mem_cons.mp h with rfl | h
    · exact .inr (.inr ⟨i.tag, List.mem_append_right _ (List.mem_cons_self ..), rfl⟩)
    · rcases List.mem_append.mp h with h | h
      · cases ha : i.array with
        | false => rw [ha] at h; cases h
        | true => rw [ha] at h; exact .inr (.inl (List.mem_singleton.mp h))
      · obtain ⟨k, hk, rfl⟩ := Option.map_eq_some_iff.mp (Option.mem_toList.mp h)
        exact .inr (.inr ⟨k, List.mem_append_right _ (List.mem_cons_of_mem _ (Option.mem_toList.mpr hk)), rfl⟩)

theorem PackField.wire_mem {i : PackField} {id : Nat} (h : id ∈ i.ids) :
    wire id ∈ i.kind ++ wire i.tag :: ((if i.array then [wire 1] else []) ++ (i.key.map wire).toList) := by
  rw [PackField.ids] at h
  rcases List.mem_append.mp h with h | h
  · refine List.mem_append_left _ ?_
    rw [PackField.kind]
    cases hb : i.buildin with
    | some b =>
      rw [hb] at h
      rw [List.mem_singleton.mp h]
      exact List.mem_cons_self ..
    | none =>
      rw [hb] at h
      exact List.mem_cons_of_mem _ (Option.mem_toList.mpr (by rw [Option.mem_toList.mp h]; rfl))
  · refine List.mem_append_right _ ?_
    rcases List.mem_cons.mp h with rfl | h
    · exact List.mem_cons_self ..
    · refine List.mem_cons_of_mem _ (List.mem_append_right _ (Option.mem_toList.mpr ?_))
      rw [Option.mem_toList.mp h]
      rfl

theorem PackField.values_lt {i : PackField} (hp : i.Packed) : ∀ v ∈ i.values, v < 2 ^ 16 := by
  intro v hv
  rw [i.values_eq] at hv
  rcases List.mem_cons.mp hv with rfl | hv
  · decide
  · rcases i.mem_values hv with rfl | rfl | ⟨id, hid, rfl⟩
    · decide
    · decide
    · exact (hp.ids id hid).2

/-- Only the value for the name is 0, unless a number does not fit. -/
theorem PackField.count_zero {i : PackField} (hp : i.Packed) : i.values.count 0 ≤ 1 ↔ i.Good := by
  rw [i.values_eq, List.count_cons_self, Nat.add_one_le_iff, Nat.lt_one_iff, List.count_eq_zero]
  constructor
  · rintro hnot id hid rfl
    exact hnot (wire_lastTag ▸ i.wire_mem hid)
  · intro hg hmem
    rcases i.mem_values hmem with h | h | ⟨id, hid, h⟩
    · cases h
    · cases h
    · have := wire_eq (hp.ids id hid) (hg id hid)
      omega

theorem PackField.length_values {i : PackField} : 0 < i.values.length ∧ i.values.length < 2 ^ 16 := by
  rw [i.values_eq, PackField.kind]
  constructor
  · exact Nat.succ_pos _
  · cases i.buildin <;> cases i.type <;> cases i.key <;> cases i.array <;> simp

/-- `import_field` on a field that is packed. -/
theorem importField_packed {type_n off : Nat} {i : PackField} (h : Holds buf off i.bytes) (hp : i.Packed) (hb : i.Bound type_n)
    (hlen : i.bytes.length < 2 ^ 32) :
    importField buf type_n off = .ok (if i.Good then some (i.imported, off + i.bytes.length) else none) := by
  have hL : SIZEOF_LENGTH = 4 := rfl
  rw [PackField.bytes, filled_length] at hlen
  have hbody := h.filled_body
  have hname : ∀ d ∈ [i.name], 4 + d.length < 2 ^ 32 := by
    intro d hd
    rw [List.mem_singleton.mp hd]
    rw [message_length, List.flatMap_singleton, filled_length] at hlen
    omega
  obtain ⟨-, hvalues, hdatas⟩ := hbody.message
  rw [List.flatMap_singleton] at hdatas
  rw [importField, h.filled_size (by omega)]
  simp only [bind, Except.bind]
  rw [structField_message hbody PackField.length_values.1 PackField.length_values.2 (PackField.values_lt hp) hname]
  simp only [List.length_singleton, PackField.count_zero hp]
  by_cases hg : i.Good
  · rw [if_pos hg, if_pos hg]
    simp only
    rw [importFieldLoop_values (PackField.values_lt hp) hvalues fun _ => importString_holds hdatas hb.name]
    have hread := values_read hp hg hb
    cases hr : readValues type_n i.name i.values 0 { tag := none, type := none, array := false, name := none, key := -1 } with
    | none => rw [hr] at hread; cases hread
    | some f =>
      rw [hr, Option.bind_some] at hread
      simp only [hread, Option.map_some, PackField.bytes, filled_length, hL]
      rw [Nat.add_assoc, Nat.add_comm 4]
  · rw [if_neg hg, if_neg hg]

/-! ### Types -/

/-- What the importers need to know of a field. -/
structure PackField.Ok (type_n : Nat) (i : PackField) : Prop extends i.Packed, i.Bound type_n where
  size : i.bytes.length < 2 ^ 32

theorem importFieldsLoop_packed {type_n stream maxn : Nat} {last : Int} {fields : List PackField} {fs : List Field}
    (h : Holds buf stream (fields.flatMap PackField.bytes)) (hok : ∀ i ∈ fields, i.Ok type_n) :
    importFieldsLoop buf type_n fields.length stream last maxn fs =
      .ok (if ∀ i ∈ fields, i.Good then
        (importFields maxn last (fields.map PackField.imported)).map fun m => (fs ++ fields.map PackField.imported, m) else none) := by
  induction fields generalizing stream last maxn fs with
  | nil => simp [importFieldsLoop, importFields]
  | cons i fields ih =>
    rw [List.flatMap_cons] at h
    have hi := hok i (List.mem_cons_self ..)
    rw [List.length_cons, importFieldsLoop, importField_packed h.left hi.toPacked hi.toBound hi.size]
    simp only [bind, Except.bind, List.forall_mem_cons]
    by_cases hg : i.Good
    · rw [if_pos hg]
      simp only [hg, true_and]
      rw [List.map_cons, importFields]
      by_cases hle : (i.imported.tag : Int) ≤ last
      · rw [if_pos hle, if_pos hle]
        simp
      · rw [if_neg hle, if_neg hle, ih h.right fun j hj => hok j (List.mem_cons_of_mem _ hj)]
        simp only [List.append_assoc, List.singleton_append]
    · rw [if_neg hg]
      simp only [hg, false_and, if_false]

theorem allZero_values {values : List Nat} {at_ : Nat} (hv : ∀ v ∈ values, v = 0) (h : Holds buf at_ (values.flatMap (Endian.le 2))) :
    allZero buf values.length at_ = .ok true := by
  induction values generalizing at_ with
  | nil => rfl
  | cons v values ih =>
    rw [List.flatMap_cons] at h
    have hrest : Holds buf (at_ + SIZEOF_FIELD) (values.flatMap (Endian.le 2)) := Endian.le_length 2 v ▸ h.right
    obtain rfl := hv v (List.mem_cons_self ..)
    rw [List.length_cons, allZero, toword_holds h.left (by decide)]
    simp only [bind, Except.bind]
    rw [if_neg (by simp), ih (fun w hw => hv w (List.mem_cons_of_mem _ hw)) hrest]

/-- The type that comes out. -/
def importedType (q : Bytes × List PackField) : Option (Bytes × SprotoType) :=
  if ∀ i ∈ q.2, i.Good then (importType (q.2.map PackField.imported)).map fun st => (q.1, st) else none

/-- `import_type` on a type that is packed. -/
theorem importTypeAt_packed {type_n off : Nat} {q : Bytes × List PackField} (h : Holds buf off (filled (typeStruct q.1 q.2)))
    (hlen : (typeStruct q.1 q.2).length < 2 ^ 32) (hok : ∀ i ∈ q.2, i.Ok type_n) :
    importTypeAt buf type_n off = .ok ((importedType q).map fun t => (t, off + (filled (typeStruct q.1 q.2)).length)) := by
  obtain ⟨name, fields⟩ := q
  simp only at *
  have hsize := h.filled_size hlen
  have hbody := h.filled_body
  have hL : SIZEOF_LENGTH = 4 := rfl
  have hend : off + SIZEOF_LENGTH + (typeStruct name fields).length = off + (filled (typeStruct name fields)).length := by
    rw [filled_length]; omega
  rw [importTypeAt, hsize]
  simp only [bind, Except.bind, hend]
  rw [typeStruct] at hbody hlen ⊢
  cases fields with
  | nil =>
    rw [List.isEmpty_nil, if_pos rfl] at hbody hlen ⊢
    have hdatas : Holds buf (off + SIZEOF_LENGTH + SIZEOF_HEADER + 1 * SIZEOF_FIELD) (filled name) := by
      have := hbody.message.2.2
      rwa [List.flatMap_singleton] at this
    have hsz := hlen
    rw [message_length, List.flatMap_singleton, filled_length] at hsz
    have hfn : structField buf (off + SIZEOF_LENGTH) (message [0] [name]).length = .ok (some 1) :=
      structField_message hbody (by decide) (by decide) (by decide) fun d hd => by rw [List.mem_singleton.mp hd]; omega
    have hzero : allZero buf 1 (off + SIZEOF_LENGTH + SIZEOF_HEADER) = .ok true := allZero_values (by decide) hbody.message.2.1
    simp only [hfn, hzero, importString_holds hdatas (by omega)]
    rfl
  | cons i fields =>
    rw [List.isEmpty_cons, if_neg (by decide)] at hbody hlen ⊢
    have hdatas : Holds buf (off + SIZEOF_LENGTH + SIZEOF_HEADER + 2 * SIZEOF_FIELD)
        (filled name ++ filled ((i :: fields).flatMap PackField.bytes)) := by
      have := hbody.message.2.2
      rwa [List.flatMap_cons, List.flatMap_singleton] at this
    have hsz := hlen
    rw [message_length, List.flatMap_cons, List.flatMap_singleton, List.length_append, filled_length, filled_length] at hsz
    have hfields : Holds buf (off + SIZEOF_LENGTH + SIZEOF_HEADER + 2 * SIZEOF_FIELD + (name.length + SIZEOF_LENGTH))
        (filled ((i :: fields).flatMap PackField.bytes)) := by
      have := hdatas.right
      rwa [filled_length] at this
    have hfn : structField buf (off + SIZEOF_LENGTH) (message [0, 0] [name, (i :: fields).flatMap PackField.bytes]).length = .ok (some 2) :=
      structField_message hbody (by decide) (by decide) (by decide) fun d hd => by
        rcases List.mem_cons.mp hd with rfl | hd
        · omega
        · rw [List.mem_singleton.mp hd]; omega
    have hzero : allZero buf 2 (off + SIZEOF_LENGTH + SIZEOF_HEADER) = .ok true := allZero_values (by decide) hbody.message.2.1
    have hcount : countArray buf (off + SIZEOF_LENGTH + SIZEOF_HEADER + 2 * SIZEOF_FIELD + (name.length + SIZEOF_LENGTH)) =
        .ok (some (i :: fields).length) := countArray_items hfields (show ((i :: fields).flatMap PackField.bytes).length < _ by omega)
    simp only [hfn, hzero, importString_holds hdatas.left (by omega), hdatas.left.filled_size (show name.length < 2 ^ 32 by omega)]
    rw [if_neg (by decide), if_neg (by decide), if_neg (by decide), Nat.mod_eq_of_lt (by omega), hcount]
    simp only
    rw [if_neg (by simp), importFieldsLoop_packed hfields.filled_body hok, importedType, importType]
    by_cases hg : ∀ j ∈ i :: fields, j.Good
    · rw [if_pos hg, if_pos hg, List.length_map]
      cases importFields (i :: fields).length (-1) ((i :: fields).map PackField.imported) <;> rfl
    · rw [if_neg hg, if_neg hg]
      rfl

/-! ### Protocols -/

/-- The loop of `import_protocol` on the values of a protocol. -/
def readProtocol (type_n : Nat) (name : Bytes) : List Nat → Nat → ProtocolRead → Option ProtocolRead
  | [], _, p => some p
  | v :: values, i, p =>
    if v % 2 = 1 then readProtocol type_n name values (i + 1) p
    else if i = 0 then
      if ((v / 2 : Nat) : Int) - 1 ≠ -1 then none else readProtocol type_n name values (i + 1) { p with name := some name }
    else (importProtocolField type_n i (((v / 2 : Nat) : Int) - 1) p).bind (readProtocol type_n name values (i + 1))

theorem importProtocolLoop_values {type_n strings at_ i : Nat} {name : Bytes} {values : List Nat} {p : ProtocolRead}
    (hv : ∀ v ∈ values, v < 2 ^ 16) (hvalues : Holds buf at_ (values.flatMap (Endian.le 2)))
    (hname : 0 ∈ values → importString buf strings = .ok name) :
    importProtocolLoop buf type_n strings values.length at_ i p = .ok (readProtocol type_n name values i p) := by
  induction values generalizing at_ i p with
  | nil => rfl
  | cons v values ih =>
    rw [List.flatMap_cons] at hvalues
    have hrest : Holds buf (at_ + SIZEOF_FIELD) (values.flatMap (Endian.le 2)) := Endian.le_length 2 v ▸ hvalues.right
    have hvs : ∀ w ∈ values, w < 2 ^ 16 := fun w hw => hv w (List.mem_cons_of_mem _ hw)
    have hnames : 0 ∈ values → importString buf strings = .ok name := fun hw => hname (List.mem_cons_of_mem _ hw)
    rw [List.length_cons, importProtocolLoop, toword_holds hvalues.left (hv v (List.mem_cons_self ..)), readProtocol]
    simp only [bind, Except.bind, ih hvs hrest hnames]
    split
    · rfl
    · split
      · split
        · rfl
        · have hzero : v = 0 := by omega
          rw [hname (by rw [hzero]; exact List.mem_cons_self ..)]
      · cases importProtocolField type_n i (((v / 2 : Nat) : Int) - 1) p <;> rfl

theorem readProtocol_id {type_n i id : Nat} {name : Bytes} {values : List Nat} {p : ProtocolRead} (h : Packable id) (hne : id ≠ lastTag)
    (hi : i ≠ 0) :
    readProtocol type_n name (wire id :: values) i p = (importProtocolField type_n i id p).bind (readProtocol type_n name values (i + 1)) := by
  rw [wire_eq h hne, readProtocol, if_neg (by omega), if_neg hi,
    show ((2 * (id + 1) / 2 : Nat) : Int) - 1 = id by omega]

theorem readProtocol_skip {type_n i : Nat} {name : Bytes} {values : List Nat} {p : ProtocolRead} :
    readProtocol type_n name (1 :: values) i p = readProtocol type_n name values (i + 1) p := by
  rw [readProtocol, if_pos rfl]

/-- The protocol that comes out. -/
def PackProto.imported (p : PackProto) : Protocol :=
  { name := p.name, tag := p.tag, request := p.request, response := p.response }

def PackProto.Good (p : PackProto) : Prop := ∀ id ∈ p.ids, id ≠ lastTag

instance (p : PackProto) : Decidable p.Good := inferInstanceAs (Decidable (∀ id ∈ p.ids, id ≠ lastTag))

/-- What the importers need to know of a protocol. -/
structure PackProto.Ok (type_n : Nat) (p : PackProto) : Prop where
  ids : ∀ id ∈ p.ids, Packable id
  request : ∀ id, p.request = some id → id < type_n
  response : ∀ id, p.response = some id → id < type_n
  size : p.bytes.length < 2 ^ 32

theorem importRequest {type_n id : Nat} {p : ProtocolRead} (h : id < type_n) :
    importProtocolField type_n 2 id p = some { p with request := some id } := by
  rw [importProtocolField, if_neg (by omega), Int.toNat_natCast]

theorem importResponse {type_n id : Nat} {p : ProtocolRead} (h : id < type_n) :
    importProtocolField type_n 3 id p = some { p with response := some id } := by
  rw [importProtocolField, if_neg (by omega), Int.toNat_natCast]

theorem protocol_read {type_n : Nat} {p : PackProto} (h : p.Ok type_n) (hg : p.Good) :
    (readProtocol type_n p.name p.values 0 { name := none, tag := none, request := none, response := none }).bind ProtocolRead.protocol =
      some p.imported := by
  obtain ⟨name, tag, request, response⟩ := p
  have hid : ∀ id ∈ PackProto.ids ⟨name, tag, request, response⟩, Packable id ∧ id ≠ lastTag := fun id hid => ⟨h.ids id hid, hg id hid⟩
  obtain ⟨htag, htagne⟩ := hid tag (List.mem_cons_self ..)
  have htagread : ∀ q : ProtocolRead, importProtocolField type_n 1 tag q = some { q with tag := some tag } := fun q => by
    rw [importProtocolField, if_neg (by omega), Int.toNat_natCast]
  have hname : ∀ values q, readProtocol type_n name (0 :: values) 0 q = readProtocol type_n name values 1 { q with name := some name } :=
    fun _ _ => rfl
  rw [PackProto.values, hname, readProtocol_id htag htagne (by decide), htagread, Option.bind_some]
  cases request with
  | none =>
    cases response with
    | none => rfl
    | some s =>
      obtain ⟨hs, hsne⟩ := hid s (List.mem_cons_of_mem _ (List.mem_append_right _ (List.mem_singleton_self s)))
      rw [readProtocol_skip, readProtocol_id hs hsne (by decide), importResponse (h.response s rfl)]
      rfl
  | some r =>
    obtain ⟨hr, hrne⟩ := hid r (List.mem_cons_of_mem _ (List.mem_append_left _ (List.mem_singleton_self r)))
    cases response with
    | none =>
      rw [readProtocol_id hr hrne (by decide), importRequest (h.request r rfl)]
      rfl
    | some s =>
      obtain ⟨hs, hsne⟩ := hid s (List.mem_cons_of_mem _ (List.mem_append_right _ (List.mem_singleton_self s)))
      rw [readProtocol_id hr hrne (by decide), importRequest (h.request r rfl), Option.bind_some,
        readProtocol_id hs hsne (by decide), importResponse (h.response s rfl)]
      rfl

theorem PackProto.values_eq (p : PackProto) : p.values = 0 :: p.values.tail := rfl

/-- The values behind the one for the name. -/
theorem PackProto.mem_values {p : PackProto} {v : Nat} (h : v ∈ p.values.tail) : v = 1 ∨ ∃ id ∈ p.ids, v = wire id := by
  obtain ⟨name, tag, request, response⟩ := p
  rcases List.mem_cons.mp h with rfl | h
  · exact .inr ⟨tag, List.mem_cons_self .., rfl⟩
  · cases request <;> cases response <;> simp only [List.mem_cons, List.not_mem_nil, or_false] at h
    · exact h.imp id fun hs => ⟨_, List.mem_cons_of_mem _ (List.mem_append_right _ (List.mem_singleton_self _)), hs⟩
    · exact .inr ⟨_, List.mem_cons_of_mem _ (List.mem_append_left _ (List.mem_singleton_self _)), h⟩
    · rcases h with h | h
      · exact .inr ⟨_, List.mem_cons_of_mem _ (List.mem_append_left _ (List.mem_singleton_self _)), h⟩
      · exact .inr ⟨_, List.mem_cons_of_mem _ (List.mem_append_right _ (List.mem_singleton_self _)), h⟩

theorem PackProto.wire_mem {p : PackProto} {id : Nat} (h : id ∈ p.ids) : wire id ∈ p.values.tail := by
  obtain ⟨name, tag, request, response⟩ := p
  rcases List.mem_cons.mp h with rfl | h
  · exact List.mem_cons_self ..
  · refine List.mem_cons_of_mem _ ?_
    rcases List.mem_append.mp h with h | h
    · obtain rfl : request = some id := Option.mem_toList.mp h
      cases response <;> exact List.mem_cons_self ..
    · obtain rfl : response = some id := Option.mem_toList.mp h
      cases request <;> exact List.mem_cons_of_mem _ (List.mem_singleton_self _)

theorem PackProto.values_lt {p : PackProto} (hp : ∀ id ∈ p.ids, Packable id) : ∀ v ∈ p.values, v < 2 ^ 16 := by
  intro v hv
  rw [p.values_eq] at hv
  rcases List.mem_cons.mp hv with rfl | hv
  · decide
  · rcases p.mem_values hv with rfl | ⟨id, hid, rfl⟩
    · decide
    · exact (hp id hid).2

theorem PackProto.count_zero {p : PackProto} (hp : ∀ id ∈ p.ids, Packable id) : p.values.count 0 ≤ 1 ↔ p.Good := by
  rw [p.values_eq, List.count_cons_self, Nat.add_one_le_iff, Nat.lt_one_iff, List.count_eq_zero]
  constructor
  · rintro hnot id hid rfl
    exact hnot (wire_lastTag ▸ p.wire_mem hid)
  · intro hg hmem
    rcases p.mem_values hmem with h | ⟨id, hid, h⟩
    · cases h
    · have := wire_eq (hp id hid) (hg id hid)
      omega

theorem PackProto.length_values (p : PackProto) : 0 < p.values.length ∧ p.values.length < 2 ^ 16 := by
  obtain ⟨name, tag, request, response⟩ := p
  cases request <;> cases response <;> simp [PackProto.values]

/-- `import_protocol` on a protocol that is packed. -/
theorem importProtocol_packed {type_n off : Nat} {p : PackProto} (h : Holds buf off p.bytes) (hok : p.Ok type_n) :
    importProtocol buf type_n off = .ok (if p.Good then some (p.imported, off + p.bytes.length) else none) := by
  have hL : SIZEOF_LENGTH = 4 := rfl
  have hlen := hok.size
  rw [PackProto.bytes, filled_length] at hlen
  have hsz := hlen
  rw [message_length, List.flatMap_singleton, filled_length] at hsz
  have hbody := h.filled_body
  have hdatas := hbody.message.2.2
  rw [List.flatMap_singleton] at hdatas
  rw [importProtocol, h.filled_size (by omega)]
  simp only [bind, Except.bind]
  rw [structField_message hbody p.length_values.1 p.length_values.2 (PackProto.values_lt hok.ids) fun d hd => by
    rw [List.mem_singleton.mp hd]; omega]
  simp only [List.length_singleton, PackProto.count_zero hok.ids]
  by_cases hg : p.Good
  · rw [if_pos hg, if_pos hg]
    simp only [Option.getD_some]
    rw [importProtocolLoop_values (PackProto.values_lt hok.ids) hbody.message.2.1 fun _ => importString_holds hdatas (by omega)]
    have hread := protocol_read hok hg
    cases hr : readProtocol type_n p.name p.values 0 { name := none, tag := none, request := none, response := none } with
    | none => rw [hr] at hread; cases hread
    | some q =>
      rw [hr, Option.bind_some] at hread
      simp only [hread, Option.map_some, PackProto.bytes, filled_length, hL]
      rw [Nat.add_assoc, Nat.add_comm 4]
  · rw [if_neg hg, if_neg hg]
    rfl

/-! ### Arrays of types and protocols -/

/-- A loop over items that are read one after another. -/
theorem importItems_packed {α β : Type} {item : Nat → Except Fault (Option (β × Nat))} {bytes : α → Bytes} {out : α → Option β}
    {xs : List α} {stream : Nat} {ys : List β} (h : Holds buf stream (xs.flatMap bytes))
    (hitem : ∀ x ∈ xs, ∀ off, Holds buf off (bytes x) → item off = .ok ((out x).map fun y => (y, off + (bytes x).length))) :
    importItems item xs.length stream ys = .ok ((xs.mapM out).map (ys ++ ·)) := by
  induction xs generalizing stream ys with
  | nil => simp [importItems]
  | cons x xs ih =>
    rw [List.flatMap_cons] at h
    rw [List.length_cons, importItems, hitem x (List.mem_cons_self ..) stream h.left, List.mapM_cons]
    simp only [bind, Except.bind]
    cases hx : out x with
    | none => rfl
    | some y =>
      simp only [Option.map_some]
      rw [ih h.right fun z hz => hitem z (List.mem_cons_of_mem _ hz)]
      cases xs.mapM out <;> simp

end Sproto
end Skynet
