import Skynet.Sproto.Version

/-!
# Skynet.Sproto.Decoded

`sproto_decode` with the callback of `lsproto.c` reads the format, with the type that it was written with or with another version
of it.

* `Filling f base ud₀ arr ud` : the decode callback has stored the pairs `arr` of the array of a field.
* `FieldReads` : the value in a record or the data of a field is read and stored.
* `Reading` : what each record leads to; a tag that the type does not have is passed over.
* `tables_read` : a table is read as the other version sees it.
-/

namespace Skynet
namespace Sproto

open Lua

/-! ### Arrays -/

/-- The decode callback has stored the fields `base`, and nothing of the field `f`. -/
structure Ready (f : Field) (base : Entries) (ud : DecodeUd) : Prop where
  result : ud.result = base
  tag : ud.arrayTag ≠ some f.tag
  fresh : ∀ p ∈ base, p.1.sameKey (.string f.name) = false

/-- The decode callback has stored the pairs `arr` of the array of a field, behind the fields `base`. -/
inductive Filling (f : Field) (base : Entries) (ud₀ : DecodeUd) : Entries → DecodeUd → Prop
  | start (h : Ready f base ud₀) : Filling f base ud₀ [] ud₀
  | filled {arr : Entries} {ud : DecodeUd} (htag : ud.arrayTag = some f.tag) (hname : ud.arrayName = f.name)
      (harr : ud.array = arr) (hres : ud.result = base ++ [(Value.string f.name, Value.table arr)])
      (hmain : ud.mainindexTag = ud₀.mainindexTag) (hkey : ud.key = ud₀.key) : Filling f base ud₀ arr ud

section Decode

variable {ts : List SprotoType} {left : Nat} {buf : Bytes} {f : Field} {base arr : Entries} {ud₀ ud : DecodeUd}

theorem newArray_filled (args : DecodeArg) (hname : args.tagname = f.name) (htag : args.tagid = f.tag)
    (h : Filling f base ud₀ arr ud) (hnew : ud.arrayTag ≠ some f.tag) :
    arr = [] ∧ (newArray args ud).arrayTag = some f.tag ∧ Filling f base ud₀ [] (newArray args ud) := by
  cases h with
  | start h =>
    refine ⟨rfl, by rw [← htag]; rfl, .filled (by rw [← htag]; rfl) hname rfl ?_ rfl rfl⟩
    simp only [newArray, setfield, hname, h.result]
    rw [setKey_fresh h.fresh]
    rfl
  | filled htag => exact absurd htag hnew

/-- The callback for an empty array. -/
theorem decode_empty (args : DecodeArg) (htag : args.tagid = f.tag) (hidx : args.index = -1)
    (hnew : ud.arrayTag ≠ some f.tag) : decode ts buf (left + 1) args ud = .ok (0, newArray args ud) := by
  have hisNew : args.index ≠ 0 ∧ ud.arrayTag ≠ some args.tagid := ⟨by omega, by rw [htag]; exact hnew⟩
  rw [decode]
  simp only [if_pos hisNew]
  rw [if_pos ⟨hisNew, by omega⟩]

/-- The callback at an item stores its pair behind the ones before. -/
theorem decode_item (args : DecodeArg) (hname : args.tagname = f.name) (htag : args.tagid = f.tag) (hpos : 0 < args.index)
    (hfresh : ∀ p ∈ base, p.1.sameKey (.string f.name) = false) (h : Filling f base ud₀ arr ud) {p : Value × Value}
    (hval : ∀ ud, ud.array = arr → decodeValue buf (decodeStruct ts buf (decode ts buf left) args.mainindex) args ud =
      .ok (0, putArray ud (arr ++ [p]))) :
    ∃ ud', decode ts buf (left + 1) args ud = .ok (0, ud') ∧ Filling f base ud₀ (arr ++ [p]) ud' := by
  -- the array is there before the item is stored
  obtain ⟨ud₁, hud₁, h₁, htag₁⟩ : ∃ ud₁, decode ts buf (left + 1) args ud =
        decodeValue buf (decodeStruct ts buf (decode ts buf left) args.mainindex) args ud₁ ∧
      Filling f base ud₀ arr ud₁ ∧ ud₁.arrayTag = some f.tag := by
    rw [decode]
    by_cases hnew : ud.arrayTag = some f.tag
    · refine ⟨ud, ?_, h, hnew⟩
      rw [htag]
      simp only [hnew, ne_eq, not_true_eq_false, and_false, if_false, false_and]
    · obtain ⟨rfl, htag₁, h₁⟩ := newArray_filled args hname htag h hnew
      refine ⟨newArray args ud, ?_, h₁, htag₁⟩
      have hisNew : args.index ≠ 0 ∧ ud.arrayTag ≠ some args.tagid := ⟨by omega, by rw [htag]; exact hnew⟩
      simp only [if_pos hisNew]
      rw [if_neg (by omega)]
  cases h₁ with
  | start h' => exact absurd htag₁ h'.tag
  | filled htag hname₁ harr hres hmain hkey =>
    refine ⟨_, hud₁.trans (hval ud₁ harr), .filled htag hname₁ rfl ?_ hmain hkey⟩
    simp only [putArray, setfield, hname₁, hres]
    rw [setKey_last hfresh (sameKey_string_self _) rfl]

/-- A value that is stored at its index. -/
theorem store_item {args : DecodeArg} {v : Value} {n : Nat} (hidx : args.index = (n + 1 : Nat)) (hv : v.isNil = false)
    (hfresh : ∀ p ∈ ud.array, p.1.sameKey (intKey (n + 1)) = false) :
    store args v ud = putArray ud (ud.array ++ [(intKey (n + 1), v)]) := by
  have hset : rawseti ud.array args.index.toNat v = ud.array ++ [(intKey (n + 1), v)] := by
    rw [hidx, Int.toNat_natCast]
    change setKey _ (intKey (n + 1)) v = _
    rw [setKey_fresh hfresh, hv]
    rfl
  rw [store, if_pos (by omega), hset]

/-- The loops over integers and booleans. -/
theorem decodeItems_spec {mk : BitVec 64 → Value} (hmk : ∀ x, (mk x).isNil = false)
    (hval : ∀ (x : BitVec 64) (args : DecodeArg) (ud : DecodeUd), args.type = f.type → args.value = .u64 x →
      decodeValue buf (decodeStruct ts buf (decode ts buf left) args.mainindex) args ud = .ok (0, store args (mk x) ud))
    (hfresh : ∀ p ∈ base, p.1.sameKey (.string f.name) = false) (item : Nat → Except Fault (BitVec 64))
    {xs : List (BitVec 64)} {vs : List Value} {ud : DecodeUd}
    (hitem : ∀ j x, xs[j]? = some x → item (vs.length + j) = .ok x) (hlen : vs.length + xs.length < 2 ^ 63)
    (h : Filling f base ud₀ (arrayEntries 1 vs) ud) :
    ∃ ud', decodeItems (decode ts buf (left + 1)) (decodeArg f) item xs.length vs.length ud = .ok ud' ∧
      Filling f base ud₀ (arrayEntries 1 (vs ++ xs.map mk)) ud' := by
  induction xs generalizing vs ud with
  | nil => exact ⟨ud, rfl, by simpa using h⟩
  | cons x xs ih =>
    rw [List.length_cons] at hlen
    have hentry : arrayEntries 1 (vs ++ [mk x]) = arrayEntries 1 vs ++ [(intKey (vs.length + 1), mk x)] := by
      rw [arrayEntries_append, arrayEntries_singleton (hmk x), Nat.add_comm 1]
    obtain ⟨ud₁, hud₁, h₁⟩ := decode_item (p := (intKey (vs.length + 1), mk x))
      { decodeArg f with index := (vs.length : Int) + 1, value := .u64 x } rfl rfl (by simp only; omega) hfresh h fun ud harr => by
        rw [hval x _ ud rfl rfl, store_item (n := vs.length) rfl (hmk x), harr]
        rw [harr]
        exact arrayEntries_fresh (by omega) (by omega) (.inr (by omega))
    rw [← hentry] at h₁
    have hitem' : ∀ j y, xs[j]? = some y → item ((vs ++ [mk x]).length + j) = .ok y := by
      intro j y hy
      have := hitem (j + 1) y hy
      rwa [List.length_append, List.length_singleton, Nat.add_assoc, Nat.add_comm 1 j]
    obtain ⟨ud₂, hud₂, h₂⟩ := ih hitem' (by rw [List.length_append, List.length_singleton]; omega) h₁
    rw [List.length_append, List.length_singleton] at hud₂
    refine ⟨ud₂, ?_, by simpa using h₂⟩
    have hx : item vs.length = .ok x := hitem 0 x rfl
    rw [List.length_cons, decodeItems, hx]
    simp only [bind, Except.bind]
    rw [hud₁]
    exact hud₂

/-- The bytes of an item are read, and a pair is stored. -/
def Puts (ts : List SprotoType) (left : Nat) (f : Field) (n : Nat) (bs : Bytes) (p : Value × Value) : Prop :=
  ∀ (buf : Bytes) (off : Nat) (ud : DecodeUd), Holds buf off bs → off ≤ buf.length →
    (∀ q ∈ ud.array, q.1.sameKey p.1 = false) →
    decodeValue buf (decodeStruct ts buf (decode ts buf left) f.key)
      { decodeArg f with index := (n + 1 : Nat), value := .range off bs.length } ud = .ok (0, putArray ud (ud.array ++ [p]))

/-- The loop over strings and structs. -/
theorem decodeArrayObject_spec (hfresh : ∀ p ∈ base, p.1.sameKey (.string f.name) = false)
    {todo : List (Bytes × Value × Value)} {ud : DecodeUd} {fuel stream : Nat}
    (hitem : ∀ n x, todo[n]? = some x → Puts ts left f (arr.length + n) x.1 x.2) (hd : Distinct (arr ++ todo.map Prod.snd))
    (hh : Holds buf stream ((todo.map Prod.fst).map filled).flatten) (hsz : ((todo.map Prod.fst).map filled).flatten.length < 2 ^ 31)
    (hfuel : ((todo.map Prod.fst).map filled).flatten.length < fuel) (h : Filling f base ud₀ arr ud) :
    ∃ ud', decodeArrayObject (decode ts buf (left + 1)) (decodeArg f) buf fuel stream
        (((todo.map Prod.fst).map filled).flatten.length : Int) (arr.length + 1) ud = .ok (some ud') ∧
      Filling f base ud₀ (arr ++ todo.map Prod.snd) ud' := by
  have hL : SIZEOF_LENGTH = 4 := rfl
  induction todo generalizing arr ud fuel stream with
  | nil =>
    obtain ⟨fuel, rfl⟩ : ∃ n, fuel = n + 1 := ⟨fuel - 1, by omega⟩
    exact ⟨ud, by rw [decodeArrayObject, if_neg (by simp)], by simpa using h⟩
  | cons x todo ih =>
    obtain ⟨bs, p⟩ := x
    simp only [List.map_cons, List.flatten_cons] at hh hd
    simp only [List.map_cons, List.flatten_cons, List.length_append, filled_length] at hsz hfuel ⊢
    obtain ⟨fuel, rfl⟩ : ∃ n, fuel = n + 1 := ⟨fuel - 1, by omega⟩
    have hhead := hh.left
    have htail := hh.right
    rw [filled_length] at htail
    have hbound := hhead.bound (by rw [filled_length]; omega)
    rw [filled_length] at hbound
    have hbody := hhead.filled_body
    have hsize := hhead.filled_size (by omega)
    have hlen' : int32 bs.length = bs.length := int32_of_lt (by omega)
    have hnew : ∀ q ∈ arr, q.1.sameKey p.1 = false := fun q hq => (List.pairwise_append.mp hd).2.2 q hq p (List.mem_cons_self ..)
    -- the callback at this item
    obtain ⟨ud₁, hud₁, h₁⟩ := decode_item (p := p)
      { decodeArg f with index := ((arr.length + 1 : Nat) : Int), value := .range (stream + SIZEOF_LENGTH) bs.length }
      rfl rfl (by simp only; omega) hfresh h fun ud harr => by
        have hput := hitem 0 (bs, p) rfl buf (stream + SIZEOF_LENGTH) ud hbody (by omega) (by rw [harr]; exact hnew)
        rw [harr] at hput
        exact hput
    have hlater : ∀ n x, todo[n]? = some x → Puts ts left f ((arr ++ [p]).length + n) x.1 x.2 := fun n x hx => by
      have := hitem (n + 1) x hx
      rwa [List.length_append, List.length_singleton, Nat.add_assoc, Nat.add_comm 1 n]
    obtain ⟨ud₂, hud₂, h₂⟩ := ih hlater
      (by rw [List.append_assoc]; exact hd) htail (by omega) (show _ < fuel by omega) h₁
    refine ⟨ud₂, ?_, by simpa using h₂⟩
    rw [List.length_append, List.length_singleton] at hud₂
    have hrest : (bs.length + 4 + ((todo.map Prod.fst).map filled).flatten.length : Nat) - (SIZEOF_LENGTH : Int) =
        (bs.length + ((todo.map Prod.fst).map filled).flatten.length : Nat) := by omega
    have hleft : ((bs.length + ((todo.map Prod.fst).map filled).flatten.length : Nat) : Int) - bs.length =
        ((todo.map Prod.fst).map filled).flatten.length := by omega
    rw [decodeArrayObject, if_pos (by omega), if_neg (by omega), hsize]
    simp only [bind, Except.bind, hrest]
    rw [uint32_of_lt (by omega), if_neg (by omega), hlen', hud₁]
    simp only [ne_eq, not_true_eq_false, if_false]
    rw [hleft, Nat.add_assoc stream, Nat.add_comm SIZEOF_LENGTH]
    exact hud₂

theorem words_holds {w off : Nat} {xs : List (BitVec 64)} (h : Holds buf off (words w xs)) {j : Nat} {x : BitVec 64}
    (hx : xs[j]? = some x) : Holds buf (off + j * w) (Endian.le w x.toNat) := by
  induction xs generalizing off j with
  | nil => cases hx
  | cons y xs ih =>
    rw [← List.singleton_append, words_append, words_singleton] at h
    cases j with
    | zero =>
      cases hx
      rw [Nat.zero_mul, Nat.add_zero]
      exact h.left
    | succ j =>
      have htail := h.right
      rw [Endian.le_length] at htail
      have := ih htail hx
      rwa [Nat.add_assoc, Nat.add_comm w, ← Nat.succ_mul] at this

theorem decodeValue_integer {sub : Nat → Nat → Int → Except Fault (Option (Int × DecodeUd))} {x : BitVec 64}
    {args : DecodeArg} (ud : DecodeUd) (ht : args.type = .integer) (hx : args.value = .u64 x) :
    decodeValue buf sub args ud = .ok (0, store args (.integer x) ud) := by
  simp only [decodeValue, ht, hx]

theorem decodeValue_boolean {sub : Nat → Nat → Int → Except Fault (Option (Int × DecodeUd))} {x : BitVec 64}
    {args : DecodeArg} (ud : DecodeUd) (ht : args.type = .boolean) (hx : args.value = .u64 x) :
    decodeValue buf sub args ud = .ok (0, store args (.boolean (x.setWidth 32 ≠ 0)) ud) := by
  simp only [decodeValue, ht, hx]

theorem decodeIntegers_spec (ht : f.type = .integer) (hfresh : ∀ p ∈ base, p.1.sameKey (.string f.name) = false)
    {xs : List (BitVec 64)} (hne : xs ≠ []) (hlen : xs.length < 2 ^ 63) {ud : DecodeUd} {stream : Nat}
    (hh : Holds buf stream (integersBody xs)) (h : Filling f base ud₀ [] ud) :
    ∃ ud', decodeIntegers (decode ts buf (left + 1)) (decodeArg f) buf stream (integersBody xs).length ud =
        .ok (some ud') ∧ Filling f base ud₀ (arrayEntries 1 (xs.map .integer)) ud' := by
  have hval : ∀ (x : BitVec 64) (args : DecodeArg) (ud : DecodeUd), args.type = f.type → args.value = .u64 x →
      decodeValue buf (decodeStruct ts buf (decode ts buf left) args.mainindex) args ud =
        .ok (0, store args (.integer x) ud) :=
    fun x args ud hta hx => decodeValue_integer ud (hta.trans ht) hx
  rw [integersBody, if_neg hne] at hh ⊢
  have hbyte : Holds buf stream (Endian.le 1 (width xs)) := by
    rw [← List.singleton_append] at hh
    exact hh.left
  have hwords : Holds buf (stream + 1) (words (width xs) xs) := by
    rw [← List.singleton_append] at hh
    exact hh.right
  have hread : readLe buf 1 stream = .ok (width xs) := by
    rw [readLe_holds hbyte (by decide)]
    rcases width_cases xs with hw | hw <;> rw [hw] <;> rfl
  have hsz : (UInt8.ofNat (width xs) :: words (width xs) xs).length - 1 = xs.length * width xs := by
    rw [List.length_cons, words_length, Nat.add_sub_cancel]
  rw [decodeIntegers, hread]
  simp only [bind, Except.bind, hsz]
  rcases width_cases xs with hw | hw
  · have hsmall : ∀ x ∈ xs, Small x := by
      by_contra hnot
      rw [width, if_neg hnot] at hw
      cases hw
    rw [hw] at hwords
    have hitem : ∀ j x, xs[j]? = some x →
        (todword buf (stream + 1 + (([] : List Value).length + j) * 4)).map expand64 = .ok x := by
      intro j x hx
      have hj := words_holds hwords hx
      rw [List.length_nil, Nat.zero_add, todword, readLe_holds hj (by decide), Except.map,
        expand64_small (hsmall x (List.mem_of_getElem? hx))]
    obtain ⟨ud', hud', hfill⟩ := decodeItems_spec (fun _ => rfl) hval hfresh
      (fun i => (todword buf (stream + 1 + i * 4)).map expand64) hitem (by simpa using hlen) h
    rw [hw, if_pos rfl, Nat.mul_mod_left, if_neg (by decide), Nat.mul_div_cancel _ (by decide)]
    rw [List.length_nil] at hud'
    exact ⟨ud', by rw [hud'], by simpa using hfill⟩
  · rw [hw] at hwords
    have hitem : ∀ j x, xs[j]? = some x →
        toqword buf (stream + 1 + (([] : List Value).length + j) * 8) = .ok x := by
      intro j x hx
      rw [List.length_nil, Nat.zero_add, toqword_holds (words_holds hwords hx)]
    obtain ⟨ud', hud', hfill⟩ := decodeItems_spec (fun _ => rfl) hval hfresh
      (fun i => toqword buf (stream + 1 + i * 8)) hitem (by simpa using hlen) h
    rw [hw, if_neg (by decide), if_pos rfl, Nat.mul_mod_left, if_neg (by decide), Nat.mul_div_cancel _ (by decide)]
    rw [List.length_nil] at hud'
    exact ⟨ud', by rw [hud'], by simpa using hfill⟩

theorem decodeBooleans_spec (ht : f.type = .boolean) (hfresh : ∀ p ∈ base, p.1.sameKey (.string f.name) = false)
    {bs : List Bool} (hlen : bs.length < 2 ^ 63) {ud : DecodeUd} {stream : Nat}
    (hh : Holds buf stream (bs.map booleanByte)) (h : Filling f base ud₀ [] ud) :
    ∃ ud', decodeItems (decode ts buf (left + 1)) (decodeArg f)
        (fun i => (readLe buf 1 (stream + i)).map (BitVec.ofNat 64)) bs.length 0 ud = .ok ud' ∧
      Filling f base ud₀ (arrayEntries 1 (bs.map .boolean)) ud' := by
  have hval : ∀ (x : BitVec 64) (args : DecodeArg) (ud : DecodeUd), args.type = f.type → args.value = .u64 x →
      decodeValue buf (decodeStruct ts buf (decode ts buf left) args.mainindex) args ud =
        .ok (0, store args (.boolean (x.setWidth 32 ≠ 0)) ud) :=
    fun x args ud hta hx => decodeValue_boolean ud (hta.trans ht) hx
  have hitem : ∀ j x, (bs.map fun b => if b then (1 : BitVec 64) else 0)[j]? = some x →
      (readLe buf 1 (stream + (([] : List Value).length + j))).map (BitVec.ofNat 64) = .ok x := by
    intro j x hx
    rw [List.getElem?_map, Option.map_eq_some_iff] at hx
    obtain ⟨b, hb, rfl⟩ := hx
    have hbyte : Holds buf (stream + j) (Endian.le 1 (if b then 1 else 0)) := by
      have := hh.get (show (bs.map booleanByte)[j]? = some (booleanByte b) by rw [List.getElem?_map, hb]; rfl)
      cases b <;> exact this
    rw [List.length_nil, Nat.zero_add, readLe_holds hbyte (by decide)]
    cases b <;> rfl
  obtain ⟨ud', hud', hfill⟩ := decodeItems_spec (fun _ => rfl) hval hfresh
    (fun i => (readLe buf 1 (stream + i)).map (BitVec.ofNat 64)) hitem (by simpa using hlen) h
  rw [List.length_map, List.length_nil] at hud'
  refine ⟨ud', hud', ?_⟩
  have hmap : ((bs.map fun b => if b then (1 : BitVec 64) else 0).map fun x =>
      Value.boolean (x.setWidth 32 ≠ 0)) = bs.map .boolean := by
    rw [List.map_map]
    apply List.map_congr_left
    intro b _
    cases b <;> rfl
  rwa [List.nil_append, hmap] at hfill

/-! ### Strings and structs -/

/-- A string or a struct is read as `v'`, and stored. -/
def ItemRead (ts : List SprotoType) (left : Nat) (t : FieldType) (v' : Value) (bs : Bytes) : Prop :=
  ∀ (buf : Bytes) (off : Nat) (args : DecodeArg), args.type = t → args.mainindex < 0 → Holds buf off bs → off ≤ buf.length →
    args.value = .range off bs.length → ∀ ud,
    decodeValue buf (decodeStruct ts buf (decode ts buf left) args.mainindex) args ud = .ok (0, store args v' ud)

/-- A table of `st` is read with `st'` as `es'`; where it has a main key, that is found. -/
def TableRead (ts : List SprotoType) (left : Nat) (st st' : SprotoType) (es es' : Entries) (bs : Bytes) : Prop :=
  ∀ (buf : Bytes) (off : Nat) (m : Int), Holds buf off bs → ∃ ud,
    sprotoDecode (decode ts buf left) buf st' off bs.length (decodeUd m) = .ok (some (bs.length, ud)) ∧ ud.result = es' ∧
    ∀ k, Keyed st m k es → (∃ g ∈ st'.f, (g.tag : Int) = m) → ud.key = k ∧ KeyOk k

theorem string_read (s : Bytes) : ItemRead ts left .string (.string s) s := by
  intro buf off args ht _ hh hoff hval ud
  have hbound : (off : Int) + s.length ≤ buf.length := by
    rcases Nat.eq_zero_or_pos s.length with h0 | hpos
    · omega
    · have := hh.bound hpos; omega
  simp only [decodeValue, ht, hval, pushString]
  rw [if_pos ⟨by omega, hbound⟩, Int.toNat_natCast, hh.take]
  rfl

theorem struct_read {j : Nat} {st st' : SprotoType} {es es' : Entries} {bs : Bytes} (hst' : ts[j]? = some st')
    (h : TableRead ts left st st' es es' bs) : ItemRead ts left (.struct j) (.table es') bs := by
  intro buf off args ht hmain hh _ hval ud
  obtain ⟨sub, hdec, rfl, -⟩ := h buf off (-1) hh
  simp only [decodeValue, ht, hval, decodeStruct, hst']
  rw [if_neg (by omega), hdec]
  simp only [bind, Except.bind, putStruct]
  rw [if_neg (by simp), if_neg (by omega)]

/-- An item of an array goes to its index. -/
theorem ItemRead.puts {v' : Value} {bs : Bytes} (hkey : f.key < 0) (hnil : v'.isNil = false)
    (h : ItemRead ts left f.type v' bs) (n : Nat) : Puts ts left f n bs (intKey (n + 1), v') := by
  intro buf off ud hh hoff hfresh
  have hread := h buf off { decodeArg f with index := (n + 1 : Nat), value := .range off bs.length } rfl hkey hh hoff rfl ud
  rw [store_item (n := n) rfl hnil hfresh] at hread
  exact hread

/-- A struct of a map goes to its main key. -/
theorem TableRead.puts {j : Nat} {st st' : SprotoType} {es es' : Entries} {bs : Bytes} {k : Value} (ht : f.type = .struct j)
    (hst' : ts[j]? = some st') (hkey : 0 ≤ f.key) (hkeyed : Keyed st f.key k es) (hmain : ∃ g ∈ st'.f, (g.tag : Int) = f.key)
    (h : TableRead ts left st st' es es' bs) (n : Nat) : Puts ts left f n bs (k, .table es') := by
  intro buf off ud hh hoff hfresh
  obtain ⟨sub, hdec, rfl, hk⟩ := h buf off f.key hh
  obtain ⟨rfl, hok⟩ := hk k hkeyed hmain
  have hset : rawset ud.array sub.key (.table sub.result) = some (ud.array ++ [(sub.key, .table sub.result)]) := by
    rw [rawset, hok, Option.map_some, setKey_fresh hfresh]
    rfl
  have htype : (decodeArg f).type = .struct j := ht
  have hindex : (decodeArg f).mainindex = f.key := rfl
  simp only [decodeValue, htype, decodeStruct, hst']
  rw [if_pos hkey, hdec]
  simp only [bind, Except.bind, putStruct]
  rw [if_neg (by simp), if_pos (by rw [hindex]; exact hkey), if_neg (by rw [hkeyed.1]; decide), hset]

/-! ### Fields -/

/-- The value `v'` is stored under the name of the field, behind the fields `base`. -/
structure Stored (f : Field) (v' : Value) (base : Entries) (ud ud' : DecodeUd) : Prop where
  result : ud'.result = base ++ [(Value.string f.name, v')]
  tag : ud'.arrayTag = ud.arrayTag ∨ ud'.arrayTag = some f.tag
  main : ud'.mainindexTag = ud.mainindexTag
  key : ud'.key = if ud.mainindexTag = f.tag ∧ f.array = false then v' else ud.key

/-- How a record's value or the data of a field is read. -/
inductive FieldReads (ts : List SprotoType) (left : Nat) (f : Field) (v' : Value) : FieldResult → Prop
  | inline {n : Nat} (hn : n < 0x7fff)
      (h : ∀ buf base ud, Ready f base ud → ∃ ud', decodeInline (decode ts buf (left + 1)) f n ud = .ok (some ud') ∧
        Stored f v' base ud ud') : FieldReads ts left f v' (.inline ((n + 1) * 2))
  | data {body : Bytes}
      (h : ∀ buf cur base ud, Holds buf cur (filled body) → Ready f base ud → ∃ ud',
        decodeData (decode ts buf (left + 1)) buf f cur ud = .ok (some ud') ∧ Stored f v' base ud ud') :
      FieldReads ts left f v' (.data (filled body))

/-- The decode callback for a field that is no array stores the value it reads. -/
theorem decode_scalar {v' : Value} (args : DecodeArg) (ha : f.array = false) (hname : args.tagname = f.name)
    (htag : args.tagid = f.tag) (hidx : args.index = 0) (hready : Ready f base ud) (hnil : v'.isNil = false)
    (hval : decodeValue buf (decodeStruct ts buf (decode ts buf left) args.mainindex) args ud = .ok (0, store args v' ud)) :
    ∃ ud', decode ts buf (left + 1) args ud = .ok (0, ud') ∧ Stored f v' base ud ud' := by
  have hres : setfield ud.result f.name v' = base ++ [(Value.string f.name, v')] := by
    rw [setfield, hready.result, setKey_fresh hready.fresh, hnil]
    rfl
  refine ⟨store args v' ud, ?_, ?_⟩
  · rw [decode]
    simp only [hidx, ne_eq, not_true_eq_false, false_and, if_false]
    exact hval
  · rw [store, if_neg (by omega)]
    simp only [hname, htag]
    by_cases hmain : ud.mainindexTag = f.tag
    · rw [if_pos hmain]
      exact ⟨hres, .inl rfl, rfl, by rw [if_pos ⟨hmain, ha⟩]⟩
    · rw [if_neg hmain]
      exact ⟨hres, .inl rfl, rfl, by rw [if_neg fun h => hmain h.1]⟩

theorem decodeInline_spec {v' : Value} {n : Nat} (ha : f.array = false)
    (ht : f.type = .integer ∨ f.type = .boolean) (hready : Ready f base ud) (hnil : v'.isNil = false)
    (hval : ∀ args : DecodeArg, args.type = f.type → args.value = .u64 (BitVec.ofNat 64 n) →
      decodeValue buf (decodeStruct ts buf (decode ts buf left) args.mainindex) args ud = .ok (0, store args v' ud)) :
    ∃ ud', decodeInline (decode ts buf (left + 1)) f n ud = .ok (some ud') ∧ Stored f v' base ud ud' := by
  obtain ⟨ud', hud', hst⟩ := decode_scalar { decodeArg f with value := .u64 (BitVec.ofNat 64 n) } ha rfl rfl rfl hready hnil
    (hval _ rfl rfl)
  refine ⟨ud', ?_, hst⟩
  rw [decodeInline, if_pos ⟨ha, ht⟩, hud']
  rfl

/-- An integer in four or eight bytes. -/
theorem integer_read (ha : f.array = false) (ht : f.type = .integer) (v : BitVec 64) :
    FieldReads ts left f (.integer v) (.data (filled (integerBytes v))) := by
  refine .data fun buf cur base ud hh hready => ?_
  obtain ⟨w, hw, hbytes⟩ : ∃ w, (w = 4 ∧ Small v ∨ w = 8) ∧ integerBytes v = Endian.le w v.toNat := by
    by_cases hv : Small v
    · exact ⟨4, .inl ⟨rfl, hv⟩, by rw [integerBytes, if_pos hv]⟩
    · exact ⟨8, .inr rfl, by rw [integerBytes, if_neg hv]⟩
  rw [hbytes] at hh
  have hlen : (Endian.le w v.toNat).length = w := Endian.le_length w _
  have hsz := hh.filled_size (by rw [hlen]; rcases hw with ⟨rfl, -⟩ | rfl <;> decide)
  have hbody := hh.filled_body
  have hval : decodeValue buf (decodeStruct ts buf (decode ts buf left) (decodeArg f).mainindex)
      { decodeArg f with value := .u64 v } ud = .ok (0, store { decodeArg f with value := .u64 v } (.integer v) ud) :=
    decodeValue_integer ud ht rfl
  obtain ⟨ud', hud', hst⟩ := decode_scalar { decodeArg f with value := .u64 v } ha rfl rfl rfl hready rfl hval
  refine ⟨ud', ?_, hst⟩
  rw [decodeData, if_neg (by rw [ha]; decide), ht]
  simp only [decodeInteger, hsz, hlen, bind, Except.bind]
  rcases hw with ⟨rfl, hsmall⟩ | rfl
  · rw [if_pos rfl, todword, readLe_holds hbody (by decide)]
    simp only [expand64_small hsmall, hud']
  · rw [if_neg (by decide), if_neg (by decide), toqword_holds hbody]
    simp only [hud']

theorem object_read (ha : f.array = false) (hkey : f.key < 0) (hint : f.type ≠ .integer) (hbool : f.type ≠ .boolean)
    {v' : Value} (hnil : v'.isNil = false) {bs : Bytes} (hlen : bs.length < 2 ^ 31) (h : ItemRead ts left f.type v' bs) :
    FieldReads ts left f v' (.data (filled bs)) := by
  refine .data fun buf cur base ud hh hready => ?_
  have hbound := hh.bound (by rw [filled_length]; omega)
  rw [filled_length] at hbound
  have hL : SIZEOF_LENGTH = 4 := rfl
  have hval := h buf (cur + SIZEOF_LENGTH) { decodeArg f with value := .range (cur + SIZEOF_LENGTH) bs.length } rfl hkey
    hh.filled_body (by omega) rfl ud
  obtain ⟨ud', hud', hst⟩ := decode_scalar { decodeArg f with value := .range (cur + SIZEOF_LENGTH) bs.length } ha rfl rfl rfl
    hready hnil hval
  have hobj : decodeObject (decode ts buf (left + 1)) (decodeArg f) buf cur ud = .ok (some ud') := by
    rw [decodeObject, hh.filled_size (by omega)]
    simp only [bind, Except.bind]
    rw [int32_of_lt (by omega), hud']
    rfl
  refine ⟨ud', ?_, hst⟩
  rw [decodeData, if_neg (by rw [ha]; decide)]
  split
  · rename_i htype; exact absurd htype hint
  · rename_i htype; exact absurd htype hbool
  · exact hobj
  · exact hobj

/-- An array whose loop stores the pairs `arr`; the empty array is created without an item. -/
theorem array_read (ha : f.array = true) {body : Bytes} (hempty : arr = [] → body = []) (hlen : body.length < 2 ^ 31)
    (h : arr ≠ [] → ∀ buf cur base ud, Holds buf cur (filled body) → Ready f base ud → ∃ ud',
      decodeArray (decode ts buf (left + 1)) (decodeArg f) buf cur ud = .ok (some ud') ∧ Filling f base ud arr ud') :
    FieldReads ts left f (.table arr) (.data (filled body)) := by
  refine .data fun buf cur base ud hh hready => ?_
  rw [decodeData, if_pos ha]
  obtain ⟨ud', hud', htag, hfill⟩ : ∃ ud', decodeArray (decode ts buf (left + 1)) (decodeArg f) buf cur ud = .ok (some ud') ∧
      ud'.arrayTag = some f.tag ∧ Filling f base ud arr ud' := by
    by_cases harr : arr = []
    · have hb := hempty harr
      subst harr hb
      obtain ⟨-, htag, hfilled⟩ := newArray_filled { decodeArg f with index := -1, value := .null } rfl rfl (.start hready) hready.tag
      refine ⟨_, ?_, htag, hfilled⟩
      have hsz := hh.filled_size (by decide)
      have hcb : decode ts buf (left + 1) { decodeArg f with index := -1, value := .null } ud = .ok (0, newArray _ ud) :=
        decode_empty _ rfl rfl hready.tag
      rw [decodeArray, hsz]
      simp only [bind, Except.bind, List.length_nil, if_true, hcb]
    · obtain ⟨ud', hud', hfill⟩ := h harr buf cur base ud hh hready
      refine ⟨ud', hud', ?_, hfill⟩
      cases hfill with
      | start _ => exact absurd rfl harr
      | filled htag => exact htag
  refine ⟨ud', hud', ?_⟩
  cases hfill with
  | start hready' => exact absurd htag hready'.tag
  | filled _ _ _ hres hmain hkey =>
    exact ⟨hres, .inr htag, hmain, by rw [hkey, if_neg]; rw [ha]; simp⟩

theorem integers_read (ha : f.array = true) (ht : f.type = .integer) (xs : List (BitVec 64))
    (hlen : (integersBody xs).length < 2 ^ 31) :
    FieldReads ts left f (.table (arrayEntries 1 (xs.map .integer))) (.data (filled (integersBody xs))) := by
  have hnil : arrayEntries 1 (xs.map .integer) = [] → xs = [] := by
    cases xs with
    | nil => exact fun _ => rfl
    | cons x xs => exact nofun
  refine array_read ha (fun h => by rw [hnil h]; rfl) hlen fun harr buf cur base ud hh hready => ?_
  have hne : xs ≠ [] := by
    rintro rfl
    exact harr rfl
  have hcount : xs.length < (integersBody xs).length := by
    rw [integersBody, if_neg hne, List.length_cons, words_length]
    rcases width_cases xs with hw | hw <;> rw [hw] <;> omega
  obtain ⟨ud', hud', hfill⟩ : ∃ ud', decodeIntegers (decode ts buf (left + 1)) (decodeArg f) buf
        (cur + SIZEOF_LENGTH) (integersBody xs).length ud = .ok (some ud') ∧
      Filling f base ud (arrayEntries 1 (xs.map .integer)) ud' :=
    decodeIntegers_spec ht hready.fresh hne (by omega) hh.filled_body (.start hready)
  refine ⟨ud', ?_, hfill⟩
  have htype : (decodeArg f).type = .integer := ht
  rw [decodeArray, hh.filled_size (by omega)]
  simp only [bind, Except.bind, htype]
  rw [if_neg (by omega)]
  exact hud'

theorem booleans_read (ha : f.array = true) (ht : f.type = .boolean) (bs : List Bool) (hlen : bs.length < 2 ^ 31) :
    FieldReads ts left f (.table (arrayEntries 1 (bs.map .boolean))) (.data (filled (bs.map booleanByte))) := by
  have hnil : arrayEntries 1 (bs.map .boolean) = [] → bs = [] := by
    cases bs with
    | nil => exact fun _ => rfl
    | cons b bs => exact nofun
  refine array_read ha (fun h => by rw [hnil h]; rfl) (by rw [List.length_map]; exact hlen) fun harr buf cur base ud hh hready => ?_
  have hpos : 0 < bs.length := List.length_pos_iff.mpr fun h => harr (by rw [h]; rfl)
  obtain ⟨ud', hud', hfill⟩ : ∃ ud', decodeItems (decode ts buf (left + 1)) (decodeArg f)
        (fun i => (readLe buf 1 (cur + SIZEOF_LENGTH + i)).map (BitVec.ofNat 64)) bs.length 0 ud = .ok ud' ∧
      Filling f base ud (arrayEntries 1 (bs.map .boolean)) ud' :=
    decodeBooleans_spec ht hready.fresh (by omega) hh.filled_body (.start hready)
  refine ⟨ud', ?_, hfill⟩
  have htype : (decodeArg f).type = .boolean := ht
  rw [decodeArray, hh.filled_size (by rw [List.length_map]; omega)]
  simp only [bind, Except.bind, htype]
  rw [List.length_map, if_neg (by omega), hud']

/-- Strings and structs whose pairs are stored in order. -/
theorem objects_read (ha : f.array = true) (hint : f.type ≠ .integer) (hbool : f.type ≠ .boolean)
    {todo : List (Bytes × Value × Value)} (hitem : ∀ n x, todo[n]? = some x → Puts ts left f n x.1 x.2)
    (hd : Distinct (todo.map Prod.snd)) (hlen : ((todo.map Prod.fst).map filled).flatten.length < 2 ^ 31) :
    FieldReads ts left f (.table (todo.map Prod.snd)) (.data (filled ((todo.map Prod.fst).map filled).flatten)) := by
  refine array_read ha (fun h => by rw [List.map_eq_nil_iff.mp h]; rfl) hlen fun harr buf cur base ud hh hready => ?_
  have hpos : 0 < ((todo.map Prod.fst).map filled).flatten.length := by
    cases todo with
    | nil => exact absurd rfl harr
    | cons x todo =>
      simp only [List.map_cons, List.flatten_cons, List.length_append, filled_length]
      omega
  have hstart : Filling f base ud [] ud := .start hready
  have hputs : ∀ n x, todo[n]? = some x → Puts ts left f (([] : List (Value × Value)).length + n) x.1 x.2 := fun n x hx => by
    rw [List.length_nil, Nat.zero_add]
    exact hitem n x hx
  obtain ⟨ud', hud', hfill⟩ := decodeArrayObject_spec hready.fresh hputs hd hh.filled_body hlen (Nat.lt_succ_self _) hstart
  refine ⟨ud', ?_, hfill⟩
  rw [decodeArray, hh.filled_size (by omega)]
  simp only [bind, Except.bind]
  rw [if_neg (by omega), int32_of_lt (by omega)]
  rw [List.length_nil, Nat.zero_add] at hud'
  split
  · rename_i htype; exact absurd htype hint
  · rename_i htype; exact absurd htype hbool
  · exact hud'
  · exact hud'

/-! ### Versions -/

variable {ts' : List SprotoType} {R : Nat → Nat → Prop} {f' : Field}

/-- The tables of a level are read as the other version sees them. -/
def TablesRead (ts ts' : List SprotoType) (R : Nat → Nat → Prop) (left : Nat) : Prop :=
  ∀ (i j : Nat) (st st' : SprotoType) (es : Entries) (bs : Bytes), R i j → ts[i]? = some st → ts'[j]? = some st' →
    TableWire ts left st es bs → bs.length < 2 ^ 31 →
    ∃ es', ItemSeen ts ts' (.struct i) (.struct j) (.table es) (.table es') ∧ TableRead ts' left st st' es es' bs

/-- The structs of a field are among the types. -/
def SubOk (ts : List SprotoType) (t : FieldType) : Prop := ∀ j, t = .struct j → ∃ st, ts[j]? = some st

theorem item_read (htables : TablesRead ts ts' R left) {t t' : FieldType} (hs : SameType R t t') (hsub : SubOk ts' t')
    {v : Value} {bs : Bytes} (h : ItemWire ts (TableWire ts left) t v bs) (hlen : bs.length < 2 ^ 31) :
    ∃ v', ItemSeen ts ts' t t' v v' ∧ ItemRead ts' left t' v' bs := by
  cases h with
  | string =>
    cases hs
    exact ⟨_, .string bs, string_read bs⟩
  | struct hst htab =>
    cases hs with
    | struct hij =>
      obtain ⟨st', hst'⟩ := hsub _ rfl
      obtain ⟨es', hseen, hread⟩ := htables _ _ _ _ _ _ hij hst hst' htab hlen
      exact ⟨_, hseen, struct_read hst' hread⟩

/-- The items of an array, at their indices. -/
theorem items_read (htables : TablesRead ts ts' R left) (hkey : f'.key < 0) {t : FieldType} (hs : SameType R t f'.type)
    (hsub : SubOk ts' f'.type) {vs : List Value} {bss : List Bytes} (h : List.Forall₂ (ItemWire ts (TableWire ts left) t) vs bss)
    (hlen : (bss.map filled).flatten.length < 2 ^ 31) (n : Nat) :
    ∃ items : List (Value × Value × Value), ∃ todo : List (Bytes × Value × Value), todo.map Prod.fst = bss ∧
      todo.map Prod.snd = items.map (fun x => (x.1, x.2.2)) ∧ items.map (fun x => (x.1, x.2.1)) = arrayEntries (n + 1) vs ∧
      (∀ x ∈ items, ItemSeen ts ts' t f'.type x.2.1 x.2.2) ∧
      ∀ (m : Nat) (x : Bytes × Value × Value), todo[m]? = some x → Puts ts' left f' (n + m) x.1 x.2 := by
  induction h generalizing n with
  | nil => exact ⟨[], [], rfl, rfl, rfl, by simp, by simp⟩
  | @cons v bs vs bss hv _ ih =>
    simp only [List.map_cons, List.flatten_cons, List.length_append, filled_length] at hlen
    obtain ⟨v', hseen, hread⟩ := item_read htables hs hsub hv (by omega)
    obtain ⟨items, todo, hfst, hsnd, hentries, hitems, htodo⟩ := ih (by omega) (n + 1)
    have hnil : v.isNil = false := by cases hv <;> rfl
    refine ⟨(intKey (n + 1), v, v') :: items, (bs, intKey (n + 1), v') :: todo, ?_, ?_, ?_, ?_, ?_⟩
    · rw [List.map_cons, hfst]
    · rw [List.map_cons, List.map_cons, hsnd]
    · rw [List.map_cons, hentries, arrayEntries, hnil]
      rfl
    · intro x hx
      rcases List.mem_cons.mp hx with rfl | hx
      · exact hseen
      · exact hitems x hx
    · intro m x hx
      cases m with
      | zero =>
        cases hx
        exact hread.puts hkey hseen.isNil n
      | succ m =>
        have := htodo m x hx
        rwa [Nat.add_assoc, Nat.add_comm 1 m] at this

/-- The structs of a map, at their main keys. -/
theorem pairs_read (htables : TablesRead ts ts' R left) {i j : Nat} {st st' : SprotoType} (hij : R i j) (hst : ts[i]? = some st)
    (ht : f'.type = .struct j) (hst' : ts'[j]? = some st') (hkey : 0 ≤ f'.key) (hmain : ∃ g ∈ st'.f, (g.tag : Int) = f'.key)
    {es : Entries} {bss : List Bytes} (hkeys : ∀ p ∈ es, ∃ e, p.2 = .table e ∧ Keyed st f'.key p.1 e)
    (h : List.Forall₂ (ItemWire ts (TableWire ts left) (.struct i)) (es.map Prod.snd) bss)
    (hlen : (bss.map filled).flatten.length < 2 ^ 31) :
    ∃ items : List (Value × Value × Value), ∃ todo : List (Bytes × Value × Value), todo.map Prod.fst = bss ∧
      todo.map Prod.snd = items.map (fun x => (x.1, x.2.2)) ∧ items.map (fun x => (x.1, x.2.1)) = es ∧
      (∀ x ∈ items, ItemSeen ts ts' (.struct i) (.struct j) x.2.1 x.2.2) ∧ ∀ (m : Nat) (x : Bytes × Value × Value), todo[m]? = some x → ∀ n, Puts ts' left f' n x.1 x.2 := by
  induction es generalizing bss with
  | nil =>
    cases h
    exact ⟨[], [], rfl, rfl, rfl, by simp, by simp⟩
  | cons p es ih =>
    rw [List.map_cons] at h
    cases h with
    | @cons _ bs _ bss hp hps =>
      simp only [List.map_cons, List.flatten_cons, List.length_append, filled_length] at hlen
      obtain ⟨k, v⟩ := p
      obtain ⟨e, he, hkeyed⟩ := hkeys _ (List.mem_cons_self ..)
      simp only at he hkeyed hp
      subst he
      obtain ⟨items, todo, hfst, hsnd, hentries, hitems, htodo⟩ := ih (fun q hq => hkeys q (List.mem_cons_of_mem _ hq)) hps (by omega)
      cases hp with
      | struct hst₁ htab =>
        obtain rfl : st = _ := Option.some.inj (hst.symm.trans hst₁)
        obtain ⟨e', hseen, hread⟩ := htables _ _ _ _ _ _ hij hst hst' htab (by omega)
        refine ⟨(k, .table e, .table e') :: items, (bs, k, .table e') :: todo, ?_, ?_, ?_, ?_, ?_⟩
        · rw [List.map_cons, hfst]
        · rw [List.map_cons, List.map_cons, hsnd]
        · rw [List.map_cons, hentries]
        · intro x hx
          rcases List.mem_cons.mp hx with rfl | hx
          · exact hseen
          · exact hitems x hx
        · intro m x hx n
          cases m with
          | zero =>
            cases hx
            exact hread.puts ht hst' hkey hkeyed hmain n
          | succ m => exact htodo m x hx n

theorem length_le_filled (bss : List Bytes) : bss.length ≤ (bss.map filled).flatten.length := by
  induction bss with
  | nil => exact Nat.zero_le _
  | cons bs bss ih =>
    rw [List.map_cons, List.flatten_cons, List.length_append, filled_length, List.length_cons]
    omega

theorem distinct_items {items : List (Value × Value × Value)} (h : Distinct (items.map fun x => (x.1, x.2.1))) :
    Distinct (items.map fun x => (x.1, x.2.2)) := by
  rw [Distinct, List.pairwise_map] at h ⊢
  exact h

/-- A field is read as the other version sees it. -/
theorem field_read (htables : TablesRead ts ts' R left) (hs : SameField R f f') (hsub : SubOk ts' f'.type)
    (hmain : 0 ≤ f'.key → ∀ j st', f'.type = .struct j → ts'[j]? = some st' → ∃ g ∈ st'.f, (g.tag : Int) = f'.key)
    (hmap : 0 ≤ f'.key → f'.array = true) {v : Value} {r : FieldResult} (hlen : r.size < 2 ^ 31)
    (h : FieldWire ts (TableWire ts left) f v r) :
    ∃ v', FieldSeen ts ts' f f' v v' ∧ v'.isNil = false ∧ FieldReads ts' left f' v' r := by
  have harray := hs.array
  have htype := hs.type
  have hint : f.type = .integer → f'.type = .integer := htype.integer_iff.mpr
  have hbool : f.type = .boolean → f'.type = .boolean := htype.boolean_iff.mpr
  cases h with
  | @inline v ha ht hv =>
    refine ⟨.integer v, .item ha (by rw [ht, hint ht]; exact .integer v), rfl, .inline hv fun buf base ud hready => ?_⟩
    have hofNat : BitVec.ofNat 64 v.toNat = v := by rw [BitVec.ofNat_toNat, BitVec.setWidth_eq]
    refine decodeInline_spec (harray.trans ha) (.inl (hint ht)) hready rfl fun args hta hx => ?_
    rw [hofNat] at hx
    exact decodeValue_integer ud (hta.trans (hint ht)) hx
  | @integer v ha ht =>
    exact ⟨.integer v, .item ha (by rw [ht, hint ht]; exact .integer v), rfl, integer_read (harray.trans ha) (hint ht) v⟩
  | @boolean b ha ht =>
    refine ⟨.boolean b, .item ha (by rw [ht, hbool ht]; exact .boolean b), rfl,
      .inline (by cases b <;> decide) fun buf base ud hready => ?_⟩
    refine decodeInline_spec (harray.trans ha) (.inr (hbool ht)) hready rfl fun args hta hx => ?_
    rw [decodeValue_boolean ud (hta.trans (hbool ht)) hx]
    cases b <;> rfl
  | @object v bs ha hitem =>
    simp only [FieldResult.size, filled_length] at hlen
    have hkey : f'.key < 0 := by
      by_contra hnot
      have harr := hmap (by omega)
      rw [harray, ha] at harr
      cases harr
    have hno := hitem.type_ne
    obtain ⟨v', hseen, hread⟩ := item_read htables htype hsub hitem (by omega)
    exact ⟨v', .item ha hseen, hseen.isNil, object_read (harray.trans ha) hkey (mt htype.integer_iff.mp hno.1)
      (mt htype.boolean_iff.mp hno.2) hseen.isNil (by omega) hread⟩
  | @integers es xs ha ht hes =>
    simp only [FieldResult.size, filled_length] at hlen
    refine ⟨_, ?_, rfl, integers_read (harray.trans ha) (hint ht) xs (by omega)⟩
    exact .of_values ha hes fun v hv => by
      obtain ⟨x, -, rfl⟩ := List.mem_map.mp hv
      rw [ht, hint ht]
      exact .integer x
  | @booleans es bs ha ht hes =>
    simp only [FieldResult.size, filled_length, List.length_map] at hlen
    refine ⟨_, ?_, rfl, booleans_read (harray.trans ha) (hbool ht) bs (by omega)⟩
    exact .of_values ha hes fun v hv => by
      obtain ⟨b, -, rfl⟩ := List.mem_map.mp hv
      rw [ht, hbool ht]
      exact .boolean b
  | @objects es vs bss ha hkey hint' hbool' hes hitems =>
    simp only [FieldResult.size, filled_length] at hlen
    have hkey' : f'.key < 0 := by rw [hs.key]; exact hkey
    obtain ⟨items, todo, rfl, hsnd, hentries, hseen, htodo⟩ := items_read htables hkey' htype hsub hitems (by omega) 0
    rw [Nat.zero_add] at hentries
    have hcount : vs.length ≤ ((todo.map Prod.fst).map filled).flatten.length := hitems.length_eq ▸ length_le_filled _
    have hd : Distinct (items.map fun x => (x.1, x.2.1)) := by
      rw [hentries]
      exact arrayEntries_distinct (by omega)
    refine ⟨.table (items.map fun x => (x.1, x.2.2)), .array ha (hentries ▸ hes) hseen, rfl, ?_⟩
    rw [← hsnd]
    exact objects_read (harray.trans ha) (mt htype.integer_iff.mp hint') (mt htype.boolean_iff.mp hbool')
      (fun n x hx => by have := htodo n x hx; rwa [Nat.zero_add] at this) (by rw [hsnd]; exact distinct_items hd) (by omega)
  | @map i st es bss ha hkey ht hst hd hkeys hitems =>
    simp only [FieldResult.size, filled_length] at hlen
    have hkey' : 0 ≤ f'.key := by rw [hs.key]; exact hkey
    obtain ⟨j, ht', hij⟩ : ∃ j, f'.type = .struct j ∧ R i j := by
      rw [ht] at htype
      generalize f'.type = t' at htype
      cases htype with
      | struct hij => exact ⟨_, rfl, hij⟩
    obtain ⟨st', hst'⟩ := hsub j ht'
    rw [ht] at hitems
    obtain ⟨items, todo, rfl, hsnd, rfl, hseen, htodo⟩ := pairs_read htables hij hst ht' hst' hkey' (hmain hkey' j st' ht' hst')
      (by rw [hs.key]; exact hkeys) hitems (by omega)
    refine ⟨.table (items.map fun x => (x.1, x.2.2)), .array ha (List.Perm.refl _) (by rw [ht, ht']; exact hseen), rfl, ?_⟩
    rw [← hsnd]
    exact objects_read (harray.trans ha) (by rw [ht']; exact nofun) (by rw [ht']; exact nofun) (fun n x hx => htodo n x hx n)
      (by rw [hsnd]; exact distinct_items hd) (by omega)

/-! ### Records -/

/-- The record for skipped tags leads to the tag before the field. -/
theorem decodeFields_skips {cb : DecodeCb DecodeUd} {buf : Bytes} {st : SprotoType} {f : Field} {last : Int} {stream : Nat}
    (hlast : -1 ≤ last) (hlt : last < f.tag) (htag : f.tag < 0x7fff)
    (h : Holds buf stream ((skips last f).flatMap (Endian.le 2))) (n data : Nat) (size : Int) (ud : DecodeUd) :
    decodeFields cb buf st ((skips last f).length + n) stream last data size ud =
      decodeFields cb buf st n (stream + 2 * (skips last f).length) (f.tag - 1) data size ud := by
  unfold skips at h ⊢
  split at h
  · rename_i hgap
    rw [if_pos hgap]
    simp only [List.flatMap_cons, List.flatMap_nil, List.append_nil] at h
    have hword := toword_holds h (by omega)
    have hF : SIZEOF_FIELD = 2 := rfl
    simp only [List.length_singleton, Nat.add_comm 1 n, decodeFields, hword, bind, Except.bind]
    rw [if_pos (by omega), hF]
    congr 1
    omega
  · rename_i hgap
    rw [if_neg hgap, List.length_nil, Nat.zero_add, Nat.mul_zero, Nat.add_zero]
    congr 1
    omega

/-- The record of a field that is in its record. -/
theorem decodeFields_inline {cb : DecodeCb DecodeUd} {st : SprotoType} {tag n stream : Nat} (hn : n < 0x7fff)
    (h : Holds buf stream (Endian.le 2 ((n + 1) * 2))) {ud ud' : DecodeUd} {data : Nat}
    (htagged : decodeTag cb buf st tag n data ud = .ok (some ud')) (m : Nat) (size : Int) :
    decodeFields cb buf st (m + 1) stream (tag - 1) data size ud = decodeFields cb buf st m (stream + 2) tag data size ud' := by
  have hword := toword_holds h (by omega)
  have hvalue : (((n + 1) * 2 / 2 : Nat) : Int) - 1 = n := by omega
  have hnext : (tag : Int) - 1 + 1 = tag := by omega
  simp only [decodeFields, hword, bind, Except.bind]
  rw [if_neg (by omega)]
  simp only [hvalue, hnext]
  rw [if_neg (by omega), htagged]
  rfl

/-- The record of a field that has data. -/
theorem decodeFields_data {cb : DecodeCb DecodeUd} {st : SprotoType} {tag stream data rest : Nat}
    {body : Bytes} (h : Holds buf stream (Endian.le 2 0)) (hbody : Holds buf data (filled body))
    (hlen : (filled body).length + rest < 2 ^ 31) {ud ud' : DecodeUd}
    (htagged : decodeTag cb buf st tag (-1) data ud = .ok (some ud')) (m : Nat) :
    decodeFields cb buf st (m + 1) stream (tag - 1) data ((filled body).length + rest : Nat) ud =
      decodeFields cb buf st m (stream + 2) tag (data + (filled body).length) rest ud' := by
  have hL : SIZEOF_LENGTH = 4 := rfl
  have hword := toword_holds h (by omega)
  have hnext : (tag : Int) - 1 + 1 = tag := by omega
  have hlen' := filled_length body
  have hsize := hbody.filled_size (by omega)
  have hskip : (body.length + SIZEOF_LENGTH) % 0x100000000 = (filled body).length := by omega
  have hleft : (((filled body).length + rest : Nat) : Int) - ((filled body).length : Nat) = rest := by omega
  have hval : ((0 / 2 : Nat) : Int) - 1 = -1 := by omega
  simp only [decodeFields, hword, bind, Except.bind]
  rw [if_neg (by omega)]
  simp only [hval, hnext]
  rw [if_pos (by omega), if_neg (by omega)]
  simp only [hsize, hskip]
  rw [if_neg (by rw [uint32_of_lt hlen]; omega), htagged]
  simp only [hleft]
  rfl

/-- The records of a field that is present, whatever its tag leads to. -/
theorem decodeFields_cons {cb : DecodeCb DecodeUd} {st : SprotoType} {f : Field} {r : FieldResult} {code : List (Field × FieldResult)}
    {stream data : Nat} {last : Int} {ud ud₁ : DecodeUd}
    (hr : (∃ n, n < 0x7fff ∧ r = .inline ((n + 1) * 2)) ∨ ∃ body, r = .data (filled body)) (hlast : -1 ≤ last) (hlt : last < f.tag)
    (htag : f.tag < 0x7fff) (hrec : Holds buf stream ((layout last ((f, r) :: code)).1.flatMap (Endian.le 2)))
    (hdata : Holds buf data (layout last ((f, r) :: code)).2) (hlen : (layout last ((f, r) :: code)).2.length < 2 ^ 31)
    (hinline : ∀ n : Nat, r = .inline ((n + 1) * 2) → decodeTag cb buf st f.tag n data ud = .ok (some ud₁))
    (hbody : ∀ body, r = .data (filled body) → Holds buf data (filled body) → decodeTag cb buf st f.tag (-1) data ud = .ok (some ud₁)) :
    ∃ stream' data', decodeFields cb buf st (layout last ((f, r) :: code)).1.length stream last data
        (layout last ((f, r) :: code)).2.length ud =
      decodeFields cb buf st (layout f.tag code).1.length stream' f.tag data' (layout f.tag code).2.length ud₁ ∧
      Holds buf stream' ((layout f.tag code).1.flatMap (Endian.le 2)) ∧ Holds buf data' (layout f.tag code).2 ∧
      (layout f.tag code).2.length < 2 ^ 31 := by
  have hF : SIZEOF_FIELD = 2 := rfl
  have hskips : ∀ (value n data : Nat) (size : Int),
      Holds buf stream ((skips last f ++ value :: (layout f.tag code).1).flatMap (Endian.le 2)) →
      Holds buf (stream + 2 * (skips last f).length) (Endian.le 2 value) ∧
      Holds buf (stream + 2 * (skips last f).length + 2) ((layout f.tag code).1.flatMap (Endian.le 2)) ∧
      decodeFields cb buf st ((skips last f).length + n) stream last data size ud =
        decodeFields cb buf st n (stream + 2 * (skips last f).length) (f.tag - 1) data size ud := by
    intro value n data size h
    rw [List.flatMap_append, List.flatMap_cons] at h
    have hright := h.right
    rw [← hF, records_length, hF] at hright
    have hrest := hright.right
    rw [Endian.le_length] at hrest
    exact ⟨hright.left, hrest, decodeFields_skips hlast hlt htag h.left n data size ud⟩
  rcases hr with ⟨n, hn, rfl⟩ | ⟨body, rfl⟩
  · rw [layout] at hrec hdata hlen ⊢
    simp only [List.length_append, List.length_cons]
    obtain ⟨hword, hrec', hskip⟩ := hskips _ ((layout f.tag code).1.length + 1) data (layout f.tag code).2.length hrec
    refine ⟨stream + 2 * (skips last f).length + 2, data, ?_, hrec', hdata, hlen⟩
    rw [hskip, decodeFields_inline hn hword (hinline n rfl)]
  · rw [layout] at hrec hdata hlen ⊢
    simp only [List.length_append, List.length_cons] at hlen ⊢
    obtain ⟨hword, hrec', hskip⟩ := hskips _ ((layout f.tag code).1.length + 1) data
      ((filled body).length + (layout f.tag code).2.length : Nat) hrec
    refine ⟨stream + 2 * (skips last f).length + 2, data + (filled body).length, ?_, hrec', hdata.right, by omega⟩
    rw [hskip, decodeFields_data hword hdata.left hlen (hbody body rfl hdata.left)]

/-- What is read for the fields that were written: the fields of the other type, and their values. -/
inductive Reading (ts : List SprotoType) (left : Nat) (st : SprotoType) :
    List (Field × FieldResult) → List ((Field × Field) × Value) → Prop
  | nil : Reading ts left st [] []
  | absent {f : Field} {code : List (Field × FieldResult)} {out : List ((Field × Field) × Value)}
      (h : Reading ts left st code out) : Reading ts left st ((f, .absent) :: code) out
  | unknown {f : Field} {r : FieldResult} {code : List (Field × FieldResult)} {out : List ((Field × Field) × Value)}
      (hfind : findtag st f.tag = none) (hr : (∃ n, n < 0x7fff ∧ r = .inline ((n + 1) * 2)) ∨ ∃ body, r = .data (filled body))
      (h : Reading ts left st code out) : Reading ts left st ((f, r) :: code) out
  | known {f f' : Field} {r : FieldResult} {v' : Value} {code : List (Field × FieldResult)}
      {out : List ((Field × Field) × Value)} (hfind : findtag st f.tag = some f') (htag : f'.tag = f.tag)
      (hread : FieldReads ts left f' v' r) (h : Reading ts left st code out) :
      Reading ts left st ((f, r) :: code) (((f, f'), v') :: out)

theorem Reading.tag_lt {st : SprotoType} {code : List (Field × FieldResult)} {out : List ((Field × Field) × Value)}
    (h : Reading ts left st code out) {last : Int} (hasc : Ascending last (code.map Prod.fst)) :
    ∀ x ∈ out, last < x.1.2.tag := by
  induction h generalizing last with
  | nil => simp
  | absent _ ih =>
    intro x hx
    have := ih hasc.2 x hx
    have := hasc.1
    omega
  | unknown _ _ _ ih =>
    intro x hx
    have := ih hasc.2 x hx
    have := hasc.1
    omega
  | known hfind htag _ _ ih =>
    intro x hx
    have hlt := hasc.1
    rcases List.mem_cons.mp hx with rfl | hx
    · simp only at hlt ⊢
      omega
    · have := ih hasc.2 x hx
      omega

/-- The main key of what is read. -/
def mainKey (m : Int) : List ((Field × Field) × Value) → Value → Value
  | [], k => k
  | x :: out, k => mainKey m out (if m = x.1.2.tag ∧ x.1.2.array = false then x.2 else k)

theorem mainKey_none {m : Int} {out : List ((Field × Field) × Value)} (h : ∀ x ∈ out, m ≠ x.1.2.tag) (k : Value) :
    mainKey m out k = k := by
  induction out with
  | nil => rfl
  | cons x out ih =>
    rw [mainKey, if_neg fun hx => h x (List.mem_cons_self ..) hx.1]
    exact ih fun y hy => h y (List.mem_cons_of_mem _ hy)

theorem decodeFields_spec {st : SprotoType} {code : List (Field × FieldResult)} {out : List ((Field × Field) × Value)}
    {stream data : Nat} {last prev : Int} (hreading : Reading ts left st code out)
    (hasc : Ascending prev (code.map Prod.fst)) (hlast : -1 ≤ last) (hle : last ≤ prev)
    (htags : ∀ c ∈ code, c.1.tag < 0x7fff) (hnames : out.Pairwise fun x y => x.1.2.name ≠ y.1.2.name)
    (hrec : Holds buf stream ((layout last code).1.flatMap (Endian.le 2))) (hdata : Holds buf data (layout last code).2)
    (hlen : (layout last code).2.length < 2 ^ 31) (hresult : ud.result = base) (hready : ∀ x ∈ out, Ready x.1.2 base ud) :
    ∃ ud', decodeFields (decode ts buf (left + 1)) buf st (layout last code).1.length stream last data
        (layout last code).2.length ud = .ok (some (0, ud')) ∧
      ud'.result = base ++ out.map (fun x => (.string x.1.2.name, x.2)) ∧ ud'.key = mainKey ud.mainindexTag out ud.key := by
  induction hreading generalizing stream data last prev base ud with
  | nil =>
    refine ⟨ud, rfl, ?_, rfl⟩
    rw [hresult, List.map_nil, List.append_nil]
  | @absent f code out _ ih =>
    have hlt : prev < (f.tag : Int) := hasc.1
    have hasc' : Ascending f.tag (code.map Prod.fst) := hasc.2
    simp only [layout] at hrec hdata hlen ⊢
    exact ih hasc' hlast (by omega) (fun c hc => htags c (List.mem_cons_of_mem _ hc)) hnames hrec hdata hlen hresult hready
  | @unknown f r code out hfind hr _ ih =>
    have hlt : prev < (f.tag : Int) := hasc.1
    have hasc' : Ascending f.tag (code.map Prod.fst) := hasc.2
    have hsmall : f.tag < 0x7fff := htags _ (List.mem_cons_self ..)
    have htagged : ∀ value : Int, decodeTag (decode ts buf (left + 1)) buf st f.tag value data ud = .ok (some ud) := by
      intro value
      rw [decodeTag, hfind]
    obtain ⟨stream', data', hrun, hrec', hdata', hlen'⟩ := decodeFields_cons hr hlast (by omega) hsmall
      hrec hdata hlen (fun n _ => htagged n) (fun _ _ _ => htagged (-1))
    rw [hrun]
    exact ih hasc' (by omega) (Int.le_refl _) (fun c hc => htags c (List.mem_cons_of_mem _ hc)) hnames hrec' hdata' hlen' hresult hready
  | @known f f' r v' code out hfind htag hread hrest ih =>
    have hlt : prev < (f.tag : Int) := hasc.1
    have hasc' : Ascending f.tag (code.map Prod.fst) := hasc.2
    obtain ⟨hname, hnames'⟩ := List.pairwise_cons.mp hnames
    have hr : (∃ n, n < 0x7fff ∧ r = .inline ((n + 1) * 2)) ∨ ∃ body, r = .data (filled body) := by
      cases hread with
      | inline hn _ => exact .inl ⟨_, hn, rfl⟩
      | data _ => exact .inr ⟨_, rfl⟩
    have hsmall : f.tag < 0x7fff := htags _ (List.mem_cons_self ..)
    have hready' := hready _ (List.mem_cons_self ..)
    -- the value is stored
    obtain ⟨ud₁, hst, hinline, hbody⟩ : ∃ ud₁, Stored f' v' base ud ud₁ ∧
        (∀ n : Nat, r = .inline ((n + 1) * 2) → decodeTag (decode ts buf (left + 1)) buf st f.tag n data ud = .ok (some ud₁)) ∧
        (∀ body, r = .data (filled body) → Holds buf data (filled body) →
          decodeTag (decode ts buf (left + 1)) buf st f.tag (-1) data ud = .ok (some ud₁)) := by
      cases hread with
      | @inline n hn h =>
        obtain ⟨ud₁, hdec, hst⟩ := h buf base ud hready'
        refine ⟨ud₁, hst, fun m hm => ?_, (fun _ h => by cases h)⟩
        obtain rfl : n = m := by
          have := FieldResult.inline.inj hm
          omega
        rw [decodeTag, hfind]
        simp only
        rw [if_neg (by omega), Int.toNat_natCast, hdec]
      | @data body h =>
        have hbody : Holds buf data (filled body) := by
          rw [layout] at hdata
          exact hdata.left
        obtain ⟨ud₁, hdec, hst⟩ := h buf data base ud hbody hready'
        refine ⟨ud₁, hst, (fun _ h => by cases h), fun _ _ _ => ?_⟩
        rw [decodeTag, hfind]
        simp only
        rw [if_pos (by omega), hdec]
    obtain ⟨stream', data', hrun, hrec', hdata', hlen'⟩ := decodeFields_cons hr hlast (by omega) hsmall
      hrec hdata hlen hinline hbody
    have htags' := hrest.tag_lt hasc'
    have hnext : ∀ x ∈ out, Ready x.1.2 (base ++ [(Value.string f'.name, v')]) ud₁ := by
      intro x hx
      have hx' := hready x (List.mem_cons_of_mem _ hx)
      refine ⟨hst.result, ?_, ?_⟩
      · rcases hst.tag with htag₁ | htag₁
        · rw [htag₁]
          exact hx'.tag
        · rw [htag₁]
          intro he
          have := Option.some.inj he
          have := htags' x hx
          omega
      · intro p hp
        rcases List.mem_append.mp hp with hp | hp
        · exact hx'.fresh p hp
        · rw [List.mem_singleton.mp hp]
          exact beq_false_of_ne (hname x hx)
    obtain ⟨ud', hdec, hres, hkey⟩ := ih hasc' (by omega) (Int.le_refl _) (fun c hc => htags c (List.mem_cons_of_mem _ hc)) hnames'
      hrec' hdata' hlen' hst.result hnext
    refine ⟨ud', hrun.trans hdec, ?_, ?_⟩
    · rw [hres, List.append_assoc]
      rfl
    · rw [hkey, hst.main, hst.key, mainKey]

/-! ### Tables -/

theorem Reading.ascending {st : SprotoType} {code : List (Field × FieldResult)} {out : List ((Field × Field) × Value)}
    (h : Reading ts left st code out) {last : Int} (hasc : Ascending last (code.map Prod.fst)) :
    out.Pairwise fun x y => x.1.2.tag < y.1.2.tag := by
  induction h generalizing last with
  | nil => exact .nil
  | absent _ ih => exact ih hasc.2
  | unknown _ _ _ ih => exact ih hasc.2
  | @known f f' r v' code out _ htag _ hrest ih =>
    refine List.pairwise_cons.mpr ⟨fun x hx => ?_, ih hasc.2⟩
    have hlt : (f.tag : Int) < x.1.2.tag := hrest.tag_lt hasc.2 x hx
    simp only
    omega

theorem mainKey_mem {m : Int} {out : List ((Field × Field) × Value)} (hd : out.Pairwise fun x y => x.1.2.tag < y.1.2.tag)
    {x : (Field × Field) × Value} (hx : x ∈ out) (hm : m = x.1.2.tag) (ha : x.1.2.array = false) (k : Value) :
    mainKey m out k = x.2 := by
  induction out generalizing k with
  | nil => cases hx
  | cons y out ih =>
    obtain ⟨hhead, htail⟩ := List.pairwise_cons.mp hd
    rw [mainKey]
    rcases List.mem_cons.mp hx with rfl | hx
    · rw [if_pos ⟨hm, ha⟩]
      refine mainKey_none (fun y hy => ?_) _
      have := hhead y hy
      omega
    · exact ih htail hx _

theorem size_le_layout {code : List (Field × FieldResult)} {last : Int} : ∀ c ∈ code, c.2.size ≤ (layout last code).2.length := by
  induction code generalizing last with
  | nil => simp
  | cons d code ih =>
    obtain ⟨f, r⟩ := d
    intro c hc
    have htail : ∀ last, c ∈ code → c.2.size ≤ (layout last code).2.length := fun last hc => ih c hc
    cases r with
    | data bs =>
      rw [layout, List.length_append]
      rcases List.mem_cons.mp hc with rfl | hc
      · exact Nat.le_add_right _ _
      · exact Nat.le_trans (htail f.tag hc) (Nat.le_add_left _ _)
    | inline value =>
      rw [layout]
      rcases List.mem_cons.mp hc with rfl | hc
      · exact Nat.zero_le _
      · exact htail f.tag hc
    | fail =>
      rcases List.mem_cons.mp hc with rfl | hc
      · exact Nat.zero_le _
      · exact htail last hc
    | zero =>
      rcases List.mem_cons.mp hc with rfl | hc
      · exact Nat.zero_le _
      · exact htail last hc
    | absent =>
      rcases List.mem_cons.mp hc with rfl | hc
      · exact Nat.zero_le _
      · exact htail last hc

/-- The values that are read, for fields of the other type with the same type of field under each common tag. -/
theorem exists_reading (htables : TablesRead ts ts' R left) {st' : SprotoType} (himp : importType st'.f = some st')
    {es : Entries} {code : List (Field × FieldResult)} (hcodes : ∀ c ∈ code, Codes ts (TableWire ts left) es c)
    (hsize : ∀ c ∈ code, c.2.size < 2 ^ 31)
    (hs : ∀ c ∈ code, ∀ f' ∈ st'.f, c.1.tag = f'.tag → SameField R c.1 f')
    (hsub : ∀ f' ∈ st'.f, SubOk ts' f'.type) (hmap : ∀ f' ∈ st'.f, 0 ≤ f'.key → f'.array = true)
    (hmain : ∀ f' ∈ st'.f, 0 ≤ f'.key → ∀ j sub, f'.type = .struct j → ts'[j]? = some sub → ∃ g ∈ sub.f, (g.tag : Int) = f'.key) :
    ∃ out : List ((Field × Field) × Value), Reading ts' left st' code out ∧
      out.map Prod.fst = (code.map Prod.fst).filterMap (fun f =>
        if (getfield es f.name).isNil then none else (st'.f.find? fun g => g.tag = f.tag).map fun g => (f, g)) ∧
      ∀ x ∈ out, FieldSeen ts ts' x.1.1 x.1.2 (getfield es x.1.1.name) x.2 := by
  induction code with
  | nil => exact ⟨[], .nil, rfl, by simp⟩
  | cons c code ih =>
    obtain ⟨f, r⟩ := c
    obtain ⟨out, hreading, hfst, hseen⟩ := ih (fun c hc => hcodes c (List.mem_cons_of_mem _ hc))
      (fun c hc => hsize c (List.mem_cons_of_mem _ hc)) (fun c hc => hs c (List.mem_cons_of_mem _ hc))
    simp only [List.map_cons, List.filterMap_cons]
    rcases hcodes _ (List.mem_cons_self ..) with ⟨hnil, hr⟩ | ⟨hnil, hwire⟩
    · simp only at hnil hr
      subst hr
      rw [hnil]
      exact ⟨out, .absent hreading, hfst, hseen⟩
    · simp only at hnil hwire
      have hsome : ¬ (getfield es f.name).isNil = true := by rw [hnil]; decide
      rw [if_neg hsome]
      cases hfind : st'.f.find? fun g => g.tag = f.tag with
      | none =>
        exact ⟨out, .unknown (by rw [findtag_eq himp, hfind]) hwire.shape hreading, hfst, hseen⟩
      | some f' =>
        have hmem := List.mem_of_find?_eq_some hfind
        have htag : f'.tag = f.tag := by simpa using List.find?_some hfind
        obtain ⟨v', hseen', -, hread⟩ := field_read htables (hs _ (List.mem_cons_self ..) f' hmem htag.symm) (hsub f' hmem)
          (hmain f' hmem) (hmap f' hmem) (hsize _ (List.mem_cons_self ..)) hwire
        refine ⟨((f, f'), v') :: out, .known (by rw [findtag_eq himp, hfind]) htag hread hreading, ?_, ?_⟩
        · rw [List.map_cons, hfst]
          rfl
        · intro x hx
          rcases List.mem_cons.mp hx with rfl | hx
          · exact hseen'
          · exact hseen x hx

theorem ItemSeen.scalar {t t' : FieldType} {v v' : Value} (h : ItemSeen ts ts' t t' v v') (ht : ∀ i, t ≠ .struct i) :
    v' = v ∧ KeyOk v := by
  cases h with
  | integer v => exact ⟨rfl, rfl⟩
  | boolean b => exact ⟨rfl, rfl⟩
  | string s => exact ⟨rfl, rfl⟩
  | struct => exact absurd rfl (ht _)

/-- The main key of a struct is found among what is read. -/
theorem mainKey_keyed {st st' : SprotoType} {es : Entries} {out : List ((Field × Field) × Value)}
    (hfst : out.map Prod.fst = common st st' es) (hseen : ∀ x ∈ out, FieldSeen ts ts' x.1.1 x.1.2 (getfield es x.1.1.name) x.2)
    (hs : ∀ f ∈ st.f, ∀ f' ∈ st'.f, f.tag = f'.tag → SameField R f f')
    (hd : out.Pairwise fun x y => x.1.2.tag < y.1.2.tag) {m : Int} {k : Value} (hk : Keyed st m k es)
    (hmain : ∃ g ∈ st'.f, (g.tag : Int) = m) : mainKey m out .nil = k ∧ KeyOk k := by
  obtain ⟨hnil, g, hg, hm, ha, ht, rfl⟩ := hk
  obtain ⟨g', hfind⟩ : ∃ g', st'.f.find? (fun x => x.tag = g.tag) = some g' := by
    cases hfind : st'.f.find? fun x => x.tag = g.tag with
    | some g' => exact ⟨g', rfl⟩
    | none =>
      obtain ⟨h, hh, htag⟩ := hmain
      have hno := List.find?_eq_none.mp hfind h hh
      simp only [decide_eq_true_eq] at hno
      exact absurd (Int.ofNat.inj (htag.trans hm.symm)) hno
  have hg' := List.mem_of_find?_eq_some hfind
  have htag : g'.tag = g.tag := by simpa using List.find?_some hfind
  have hmem : (g, g') ∈ common st st' es := by
    refine List.mem_filterMap.mpr ⟨g, hg, ?_⟩
    rw [if_neg (by rw [hnil]; decide), hfind]
    rfl
  rw [← hfst] at hmem
  obtain ⟨⟨⟨_, _⟩, v'⟩, hx, hfst'⟩ := List.mem_map.mp hmem
  cases hfst'
  have harray := (hs g hg g' hg' htag.symm).array
  rw [mainKey_mem hd hx (by simp only; omega) (harray.trans ha)]
  have hfield := hseen _ hx
  simp only at hfield
  generalize getfield es g.name = v at hfield
  cases hfield with
  | item _ hitem => exact hitem.scalar ht
  | array ha' => rw [ha] at ha'; cases ha'

/-- A table of a level is read, if the tables below it are. -/
theorem table_read (htables : TablesRead ts ts' R left) (hwf : ∀ st ∈ ts, Valid ts.length st)
    (hwf' : ∀ st ∈ ts', Valid ts'.length st) (hmain : MainKeys ts') (hR : Versions ts ts' R) :
    TablesRead ts ts' R (left + 1) := by
  intro i j st st' es bs hij hst hst' hwire hlen
  obtain ⟨code, hfst, hcodes, rfl⟩ := hwire
  have hst₁ := hwf st (List.mem_of_getElem? hst)
  have hmem' := List.mem_of_getElem? hst'
  have hst₂ := hwf' st' hmem'
  have hlength := tableBytes_length code
  obtain ⟨hasc, -, -⟩ := maxn_base hst₁.imported
  rw [← hfst] at hasc
  have hin : ∀ c ∈ code, c.1 ∈ st.f := fun c hc => hfst ▸ List.mem_map_of_mem hc
  have hsub : ∀ f' ∈ st'.f, SubOk ts' f'.type := by
    intro f' hf' k hk
    exact ⟨_, List.getElem?_eq_getElem (hst₂.subtype f' hf' k hk)⟩
  have hfields := hR i j st st' hij hst hst'
  obtain ⟨out, hreading, hcommon, hseen⟩ := exists_reading htables hst₂.imported hcodes
    (fun c hc => by have hle : c.2.size ≤ (layout (-1) code).2.length := size_le_layout c hc; omega) (fun c hc => hfields c.1 (hin c hc)) hsub
    (fun f' hf' hkey => (hst₂.map f' hf' hkey).1) (fun f' hf' hkey => hmain st' hmem' f' hf' hkey)
  rw [hfst] at hcommon
  have hcommon' : out.map Prod.fst = common st st' es := hcommon
  have htags := hreading.ascending hasc
  have hout : ∀ x ∈ out, x.1.2 ∈ st'.f := by
    intro x hx
    have hx' : x.1 ∈ common st st' es := hcommon' ▸ List.mem_map_of_mem hx
    obtain ⟨f, -, hf⟩ := List.mem_filterMap.mp hx'
    split at hf
    · cases hf
    · obtain ⟨g, hg, hgx⟩ := Option.map_eq_some_iff.mp hf
      rw [← hgx]
      exact List.mem_of_find?_eq_some hg
  have hnames : out.Pairwise fun x y => x.1.2.name ≠ y.1.2.name := by
    have hnodup : (st'.f.map Field.name).Nodup := List.pairwise_map.mpr hst₂.names
    refine htags.imp_of_mem fun {x y} hx hy hlt hname => ?_
    have heq := List.inj_on_of_nodup_map hnodup (hout x hx) (hout y hy) hname
    rw [heq] at hlt
    omega
  refine ⟨_, .struct hst hst' hcommon' hseen, fun buf off m hh => ?_⟩
  have hH : SIZEOF_HEADER = 2 := rfl
  have hF : SIZEOF_FIELD = 2 := rfl
  have hrecords := records_fit hst₁.imported hfst
  have hmaxn := hst₁.records_bound
  have hbody := hh.right
  have hrec := hh.left.right
  rw [List.length_append, Endian.le_length, records_length, hH] at hbody
  rw [Endian.le_length, hH, hF] at hrec
  have hword : toword buf off = .ok (layout (-1) code).1.length := toword_holds (hH ▸ hh.left.left) (by omega)
  have hready : ∀ x ∈ out, Ready x.1.2 [] (decodeUd m) := fun x _ => ⟨rfl, nofun, nofun⟩
  obtain ⟨ud, hrun, hres, hkey⟩ := decodeFields_spec hreading hasc (Int.le_refl _) (Int.le_refl _)
    (fun c hc => hst₁.tags _ (hin c hc)) hnames hrec hbody (by omega) (show (decodeUd m).result = [] from rfl) hready
  refine ⟨ud, ?_, hres, fun k hk hg => ?_⟩
  · rw [sprotoDecode, hlength, if_neg (by omega), hword]
    simp only [bind, Except.bind, hH, hF]
    rw [if_neg (by omega)]
    have hstream : off + 2 + (layout (-1) code).1.length * 2 = off + (2 + 2 * (layout (-1) code).1.length) := by omega
    have hleft : ((2 + 2 * (layout (-1) code).1.length + (layout (-1) code).2.length : Nat) : Int) - (2 : Nat) -
        ((layout (-1) code).1.length : Nat) * (2 : Nat) = ((layout (-1) code).2.length : Nat) := by omega
    rw [hstream, hleft, hrun]
    simp only [Option.map_some, Int.sub_zero]
  · rw [hkey]
    exact mainKey_keyed hcommon' hseen hfields htags hk hg

/-- A table without fields, at the deepest level. -/
theorem empty_read : TablesRead ts ts' R 0 := by
  intro i j st st' es bs hij hst hst' hwire hlen
  obtain ⟨hf, rfl, rfl⟩ := hwire
  have hnone : ([] : List ((Field × Field) × Value)).map Prod.fst = common st st' [] := by rw [common, hf]; rfl
  refine ⟨_, .struct hst hst' hnone (by simp), fun buf off m hh => ⟨decodeUd m, ?_, rfl, ?_⟩⟩
  · have hlength : (tableBytes []).length = 2 := rfl
    have hword : toword buf off = .ok 0 := toword_holds (n := 0) ⟨_, hh.choose_spec⟩ (by decide)
    rw [sprotoDecode, hlength, if_neg (by decide), hword]
    rfl
  · rintro k ⟨-, g, hg, -⟩
    rw [hf] at hg
    cases hg

theorem tables_read (hwf : ∀ st ∈ ts, Valid ts.length st) (hwf' : ∀ st ∈ ts', Valid ts'.length st) (hmain : MainKeys ts')
    (hR : Versions ts ts' R) (left : Nat) : TablesRead ts ts' R left := by
  induction left with
  | zero => exact empty_read
  | succ left ih => exact table_read ih hwf hwf' hmain hR

end Decode

end Sproto
end Skynet
