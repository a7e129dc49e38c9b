import Skynet.Bson.Makeindex

/-!
# Skynet.Bson.Slots

The fields of a document that can be overwritten.

* `rawget_indexOf` : what the index says about a key is where the first field with the key is.
* `Doc.put` : the document with another value in a field.
* `located_of_slot` : its bytes differ in those of the value only, and its table is the other one with the key set.
-/

namespace Skynet
namespace Bson

open Lua
open Seri (toInt32)

/-! ### The places of the fields -/

/-- The kind and the offset of the value with a key, if it has a fixed size. -/
def slotOf : List Place → Value → Nat → Option (Kind × Nat)
  | [], _, _ => none
  | p :: ps, key, off =>
    if (Value.string p.key).sameKey key then
      if 0 < p.kind.fixedSize then some (p.kind, off + p.key.length + 2) else none
    else slotOf ps key (off + p.room)

theorem slotOf_none {ps : List Place} {key : Value} (h : ∀ p ∈ ps, (Value.string p.key).sameKey key = false)
    (off : Nat) :
    slotOf ps key off = none := by
  induction ps generalizing off with
  | nil => rfl
  | cons p ps ih =>
    rw [slotOf, if_neg (by rw [h p List.mem_cons_self]; decide)]
    exact ih (fun q hq => h q (List.mem_cons_of_mem _ hq)) _

theorem rawget_indexEntry (es : Entries) (p : Place) (off : Nat) (key : Value) :
    rawget (indexEntry es p.key p.kind off) key =
      if (Value.string p.key).sameKey key ∧ 0 < p.kind.fixedSize then .integer (BitVec.ofNat 64 (idOf p.kind off))
      else rawget es key := by
  unfold indexEntry
  by_cases hsize : 0 < p.kind.fixedSize
  · rw [if_pos hsize, rawget_setKey rfl]
    simp only [hsize, and_true]
  · rw [if_neg hsize, if_neg fun h => hsize h.2]

theorem others_of_nodup {p : Place} {ps : List Place} {key : Value} (h : ((p :: ps).map Place.key).Nodup)
    (hkey : (Value.string p.key).sameKey key = true) : ∀ q ∈ ps, (Value.string q.key).sameKey key = false := by
  intro q hq
  apply Bool.eq_false_iff.mpr
  intro hsame
  have hpq : Value.string p.key = .string q.key := (eq_of_sameKey hkey).trans (eq_of_sameKey hsame).symm
  rw [List.map_cons, List.nodup_cons] at h
  exact h.1 ((Value.string.inj hpq) ▸ List.mem_map_of_mem hq)

/-- What the index says about a key. -/
theorem rawget_indexOf {ps : List Place} (h : (ps.map Place.key).Nodup) (key : Value) (off : Nat) (es : Entries) :
    rawget (indexOf ps off es) key =
      match slotOf ps key off with
      | some (k, o) => .integer (BitVec.ofNat 64 (idOf k o))
      | none => rawget es key := by
  induction ps generalizing off es with
  | nil => rfl
  | cons p ps ih =>
    have hps : (ps.map Place.key).Nodup := (List.nodup_cons.mp h).2
    rw [indexOf, ih hps, slotOf]
    by_cases hkey : (Value.string p.key).sameKey key = true
    · rw [slotOf_none (others_of_nodup h hkey), if_pos hkey, rawget_indexEntry]
      by_cases hsize : 0 < p.kind.fixedSize
      · rw [if_pos hsize, if_pos ⟨hkey, hsize⟩]
      · rw [if_neg hsize, if_neg fun h => hsize h.2]
    · rw [if_neg hkey]
      cases slotOf ps key (off + p.room) with
      | some s => rfl
      | none => exact (rawget_indexEntry ..).trans (if_neg fun h => hkey h.1)

theorem code_lt {k : Kind} (h : 0 < k.fixedSize) : k.code < 32 := by
  cases k <;> first | decide | exact absurd h (Nat.lt_irrefl 0)

theorem idOf_eq {k : Kind} (h : 0 < k.fixedSize) (o : Nat) : idOf k o = k.code + 32 * o := by
  rw [idOf, Nat.or_comm, BSON_TYPE_SHIFT, ← Nat.shiftLeft_add_eq_or_of_lt (code_lt h), Nat.shiftLeft_eq]
  omega

/-- The type and the offset are found again in an entry of the index. -/
theorem id_split {k : Kind} {o : Nat} (h : 0 < k.fixedSize) (ho : o < 2 ^ 26) :
    (toInt32 (BitVec.ofNat 64 (idOf k o)).toInt % 2 ^ BSON_TYPE_SHIFT).toNat = k.code ∧
      toInt32 (BitVec.ofNat 64 (idOf k o)).toInt / 2 ^ BSON_TYPE_SHIFT = o := by
  have hcode := code_lt h
  have hid := idOf_eq h o
  have hnat : (BitVec.ofNat 64 (idOf k o)).toNat = idOf k o := by
    rw [BitVec.toNat_ofNat, Nat.mod_eq_of_lt (by omega)]
  have hint : (BitVec.ofNat 64 (idOf k o)).toInt = idOf k o := by
    rw [BitVec.toInt_eq_toNat_of_lt (by omega), hnat]
  have h32 : toInt32 (idOf k o) = idOf k o := Int.bmod_eq_of_le (by omega) (by omega)
  rw [hint, h32, BSON_TYPE_SHIFT]
  omega

/-! ### Documents with another value -/

namespace Doc

/-- The fields of a document that was encoded are in order whatever is behind them. -/
def Steady : Doc → Prop
  | nil => True
  | field key v rest => 0 ∉ key ∧ (∀ bs, v.Ok bs) ∧ rest.Steady
  | nested a key inner rest => 0 ∉ key ∧ inner.Ok a ∧ rest.Steady

theorem Steady.ok {d : Doc} (h : d.Steady) : d.Ok false := by
  induction d with
  | nil => trivial
  | field key v rest ih => exact ⟨⟨h.1, fun ha => absurd ha (by decide)⟩, h.2.1 _, ih h.2.2⟩
  | nested a key inner rest _ ih => exact ⟨⟨h.1, fun ha => absurd ha (by decide)⟩, h.2.1, ih h.2.2⟩

/-- The first field with a key gets the value `s`. -/
def put (key : Bytes) (s : Scalar) : Doc → Doc
  | nil => nil
  | field k v rest => if k = key then field k s rest else field k v (rest.put key s)
  | nested a k inner rest => nested a k inner (rest.put key s)

def keys (d : Doc) : List Bytes := d.places.map Place.key

end Doc

theorem sameKey_string {a b : Bytes} : (Value.string a).sameKey (.string b) = true ↔ a = b := by
  constructor
  · exact fun h => Value.string.inj (eq_of_sameKey h)
  · rintro rfl
    exact sameKey_string_self a

theorem Doc.Steady.put {d : Doc} (h : d.Steady) (key : Bytes) {s : Scalar} (hs : ∀ bs, s.Ok bs) :
    (d.put key s).Steady := by
  induction d with
  | nil => trivial
  | field k v rest ih =>
    rw [Doc.put]
    split
    · exact ⟨h.1, hs, h.2.2⟩
    · exact ⟨h.1, h.2.1, ih h.2.2⟩
  | nested a k inner rest _ ih => exact ⟨h.1, h.2.1, ih h.2.2⟩

/-- Where the value of a field is in the bytes of the document. -/
structure Located (d : Doc) (key : Bytes) (k : Kind) (pre X post : Bytes) : Prop where
  bytes : d.bytes = pre ++ X ++ post
  size : X.length = k.fixedSize
  put : ∀ s : Scalar, s.kind = k → (d.put key s).bytes = pre ++ s.bytes ++ post
  places : ∀ s : Scalar, s.kind = k → s.bytes.length = k.fixedSize → (d.put key s).places = d.places
  table : ∀ (s : Scalar) (es : Entries), s.value.isNil = false → d.keys.Nodup →
    (d.put key s).table false es = setKey (d.table false es) (.string key) s.value

theorem value_isNil (s : Scalar) : s.value.isNil = false := by cases s <;> rfl

theorem table_setKey {d : Doc} {key : Bytes} (h : key ∉ d.keys) {t : Entries} {w : Value} (hw : w.isNil = false)
    (hthere : (t.any fun p => p.1.sameKey (.string key)) = true) :
    d.table false (setKey t (.string key) w) = setKey (d.table false t) (.string key) w := by
  induction d generalizing t with
  | nil => rfl
  | field k v rest ih =>
    have hne : Value.sameKey (.string k) (.string key) = false :=
      Bool.eq_false_iff.mpr fun hk => h (sameKey_string.mp hk ▸ List.mem_cons_self)
    rw [Doc.table_field, Doc.table_field, keyValue, if_neg (by decide), setKey_comm hthere hne hw (value_isNil v)]
    refine ih (fun hk => h (List.mem_cons_of_mem _ hk)) ?_
    rw [any_setKey (value_isNil v), hthere, Bool.or_true]
  | nested a k inner rest _ ih =>
    have hne : Value.sameKey (.string k) (.string key) = false :=
      Bool.eq_false_iff.mpr fun hk => h (sameKey_string.mp hk ▸ List.mem_cons_self)
    rw [Doc.table_nested, Doc.table_nested, keyValue, if_neg (by decide), setKey_comm hthere hne hw rfl]
    refine ih (fun hk => h (List.mem_cons_of_mem _ hk)) ?_
    rw [any_setKey rfl, hthere, Bool.or_true]

/-- The first field has the key. -/
theorem located_here {key : Bytes} {v : Scalar} {rest : Doc} (hok : ∀ bs, v.Ok bs) (hsize : 0 < v.kind.fixedSize) :
    Located (.field key v rest) key v.kind (v.kind.byte :: (key ++ [0])) v.bytes rest.bytes where
  bytes := by simp
  size := scalar_fixedSize (hok []) hsize
  put s hkind := by
    rw [Doc.put, if_pos rfl]
    simp [hkind]
  places s hkind hlen := by
    rw [Doc.put, if_pos rfl, Doc.places, Doc.places, hkind, hlen, scalar_fixedSize (hok []) hsize]
  table s es hs hkeys := by
    have hrest : key ∉ rest.keys := (List.nodup_cons.mp hkeys).1
    have hself := sameKey_string_self key
    have hthere : ((setKey es (.string key) v.value).any fun p => p.1.sameKey (.string key)) = true := by
      rw [any_setKey (value_isNil v), hself]
      rfl
    rw [Doc.put, if_pos rfl, Doc.table_field, Doc.table_field, keyValue, if_neg (by decide),
      ← setKey_setKey hself (value_isNil v) hs, table_setKey hrest hs hthere]

/-- It is in the fields behind the first one. -/
theorem Located.behind {front : Doc → Doc} {rest : Doc} {p : Place} {key bs pre X post : Bytes} {k : Kind} (w : Value)
    (h : Located rest key k pre X post) (hbytes : ∀ d : Doc, (front d).bytes = bs ++ d.bytes)
    (hput : ∀ s, (front rest).put key s = front (rest.put key s))
    (hplaces : ∀ d : Doc, (front d).places = p :: d.places)
    (htable : ∀ (d : Doc) es, (front d).table false es = d.table false (setKey es (.string p.key) w)) :
    Located (front rest) key k (bs ++ pre) X post where
  bytes := by rw [hbytes, h.bytes, List.append_assoc, List.append_assoc, List.append_assoc]
  size := h.size
  put s hkind := by rw [hput, hbytes, h.put s hkind, List.append_assoc, List.append_assoc, List.append_assoc]
  places s hkind hlen := by rw [hput, hplaces, hplaces, h.places s hkind hlen]
  table s es hs hkeys := by
    have hrest : rest.keys.Nodup := by
      rw [Doc.keys, hplaces] at hkeys
      exact (List.nodup_cons.mp hkeys).2
    rw [hput, htable, htable, h.table s _ hs hrest]

/-- What the index says is where a value is. -/
theorem located_of_slot {d : Doc} (hd : d.Steady) {key : Bytes} {k : Kind} {o off : Nat}
    (h : slotOf d.places (.string key) off = some (k, o)) :
    0 < k.fixedSize ∧ ∃ pre X post, Located d key k pre X post ∧ o = off + pre.length := by
  induction d generalizing off with
  | nil => cases h
  | field k' v rest ih =>
    rw [Doc.places, slotOf] at h
    by_cases hkey : k' = key
    · rw [if_pos (sameKey_string.mpr hkey)] at h
      by_cases hsize : 0 < v.kind.fixedSize
      · rw [if_pos hsize] at h
        cases h
        subst hkey
        refine ⟨hsize, _, _, _, located_here hd.2.1 hsize, ?_⟩
        simp
        omega
      · rw [if_neg hsize] at h
        cases h
    · rw [if_neg fun hk => hkey (sameKey_string.mp hk)] at h
      obtain ⟨hsize, pre, X, post, hloc, ho⟩ := ih hd.2.2 h
      have hput : ∀ s, (Doc.field k' v rest).put key s = .field k' v (rest.put key s) := fun s => if_neg hkey
      refine ⟨hsize, _, X, post, @Located.behind (.field k' v) rest _ key
        (v.kind.byte :: (k' ++ 0 :: v.bytes)) pre X post k
        v.value hloc (fun d => by simp) hput (fun _ => rfl) (fun _ _ => rfl), ?_⟩
      rw [ho]
      simp [Place.room]
      omega
  | nested a k' inner rest _ ih =>
    rw [Doc.places, slotOf] at h
    by_cases hkey : k' = key
    · rw [if_pos (sameKey_string.mpr hkey), if_neg (by cases a <;> exact Nat.lt_irrefl 0)] at h
      cases h
    · rw [if_neg fun hk => hkey (sameKey_string.mp hk)] at h
      obtain ⟨hsize, pre, X, post, hloc, ho⟩ := ih hd.2.2 h
      refine ⟨hsize, _, X, post, @Located.behind (.nested a k' inner) rest _ key
        ((tableKind a).byte :: (k' ++ 0 :: wrap inner.bytes)) pre X post k (.table (inner.table a [])) hloc
        (fun d => by simp) (fun _ => rfl) (fun _ => rfl) (fun _ _ => rfl), ?_⟩
      rw [ho]
      simp [Place.room]
      omega

end Bson
end Skynet
