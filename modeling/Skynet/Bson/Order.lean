import Skynet.Bson.RoundTrip

/-!
# Skynet.Bson.Order

When a document comes back as it was.

A sequence is written as an array only if `lua_next` visits its last index last, which depends on how Lua has stored the
table; else it is written as a document, with its indices as texts.

* `Tree` : tables with string keys, or non-empty sequences, at every level.
* `Arranged` : every sequence ends with its last index.
* `bson_same_iff` : a tree comes back just when it is arranged.
-/

namespace Skynet
namespace Bson

open Lua
open Seri (toInt32)
open Decimal (decimal strtol strtol_decimal zero_not_mem_decimal)

/-- `n` is a border of a table, as `lua_rawlen` promises. -/
structure IsBorder (es : Entries) (n : Nat) : Prop where
  lt : n < 2 ^ 63
  value : 0 < n → (rawgeti es n).isNil = false
  next : (rawgeti es (n + 1)).isNil = true

def StringKeys (es : Entries) : Prop := ∀ p ∈ es, ∃ s, p.1 = .string s

section Order

variable (rawlen : Entries → Nat) (fmt : BitVec 64 → Bytes)

/-- The values whose tables are sequences or have string keys. -/
inductive Tree : Nat → Value → Prop
  | boolean {levels : Nat} (v : Bool) : Tree levels (.boolean v)
  | integer {levels : Nat} (v : BitVec 64) : Tree levels (.integer v)
  | number {levels : Nat} (bits : BitVec 64) : Tree levels (.number bits)
  | string {levels : Nat} {s : Bytes} (h : TextOk s) : Tree levels (.string s)
  | record {levels : Nat} {es : Entries} (hkey : ∀ p ∈ es, ∃ s, p.1 = .string s ∧ 0 ∉ s) (hdist : Distinct es)
      (hborder : IsBorder es (rawlen es)) (hval : ∀ p ∈ es, Tree levels p.2) : Tree (levels + 1) (.table es)
  | sequence {levels : Nat} {es : Entries} {vs : List Value} (hes : es.Perm (arrayEntries 1 vs)) (hne : vs ≠ [])
      (hlen : vs.length < 2 ^ 31 - 1) (hborder : IsBorder es (rawlen es)) (hval : ∀ v ∈ vs, Tree levels v) :
      Tree (levels + 1) (.table es)

/-- The pair that is visited last is that of the index that is the number of the pairs. -/
def LengthLast (es : Entries) : Prop := ∃ init v, es = init ++ [(intKey es.length, v)]

inductive Arranged : Value → Prop
  | boolean (v : Bool) : Arranged (.boolean v)
  | integer (v : BitVec 64) : Arranged (.integer v)
  | number (bits : BitVec 64) : Arranged (.number bits)
  | string (s : Bytes) : Arranged (.string s)
  | table {es : Entries} (h : StringKeys es ∨ LengthLast es) (hval : ∀ p ∈ es, Arranged p.2) : Arranged (.table es)

variable {rawlen fmt} {levels : Nat}

theorem Tree.isNil_eq {v : Value} (h : Tree rawlen levels v) : v.isNil = false := by
  cases h <;> rfl

/-! ### Borders -/

theorem rawgeti_stringKeys {es : Entries} (h : StringKeys es) (i : Nat) : (rawgeti es i).isNil = true := by
  by_contra hnil
  have hmem := mem_of_rawget (Bool.not_eq_true _ ▸ hnil)
  obtain ⟨s, hs⟩ := h _ hmem
  cases hs

theorem rawlen_record {es : Entries} (h : StringKeys es) (hborder : IsBorder es (rawlen es)) : rawlen es = 0 := by
  by_contra hne
  have hvalue := hborder.value (by omega)
  rw [rawgeti_stringKeys h] at hvalue
  cases hvalue

section Sequence

variable {es : Entries} {vs : List Value}

theorem rawgeti_sequence (hes : es.Perm (arrayEntries 1 vs)) (hnil : ∀ v ∈ vs, v.isNil = false)
    (hlen : vs.length < 2 ^ 31)
    {i : Nat} (hi : i < vs.length) : rawgeti es (i + 1) = vs[i] := by
  rw [Nat.add_comm, rawgeti_array hes hnil (by omega) (by omega), List.getElem?_eq_getElem hi]
  rfl

theorem rawlen_sequence (hes : es.Perm (arrayEntries 1 vs)) (hnil : ∀ v ∈ vs, v.isNil = false)
    (hlen : vs.length < 2 ^ 31)
    (hborder : IsBorder es (rawlen es)) : rawlen es = vs.length := by
  have hlt := hborder.lt
  rcases Nat.lt_trichotomy (rawlen es) vs.length with hless | heq | hmore
  · have hnext := hborder.next
    rw [rawgeti_sequence hes hnil hlen hless, hnil _ (List.getElem_mem hless)] at hnext
    cases hnext
  · exact heq
  · have hvalue := hborder.value (by omega)
    obtain ⟨j, hj⟩ : ∃ j, rawlen es = 1 + j := ⟨rawlen es - 1, by omega⟩
    rw [hj, rawgeti_behind hes (by omega) (by omega)] at hvalue
    cases hvalue

theorem sequence_length (hes : es.Perm (arrayEntries 1 vs)) (hnil : ∀ v ∈ vs, v.isNil = false) :
    es.length = vs.length := by
  rw [hes.length_eq]
  clear hes
  generalize 1 = i
  induction vs generalizing i with
  | nil => rfl
  | cons v vs ih =>
    rw [arrayEntries_cons, hnil v List.mem_cons_self, List.length_append,
      ih (fun w hw => hnil w (List.mem_cons_of_mem _ hw)),
      List.length_cons, Nat.add_comm]
    rfl

/-- `is_rawarray` finds that the last index is visited last. -/
theorem ordered_sequence (hes : es.Perm (arrayEntries 1 vs)) (hne : vs ≠ []) (hnil : ∀ v ∈ vs, v.isNil = false)
    (hlen : vs.length < 2 ^ 31) (hborder : IsBorder es (rawlen es)) : ordered rawlen es = true ↔ LengthLast es := by
  have hraw := rawlen_sequence hes hnil hlen hborder
  have hcount := sequence_length hes hnil
  have hpos : 0 < vs.length := List.length_pos_iff.mpr hne
  have hdist : Distinct es := (arrayEntries_distinct (by omega)).perm hes.symm
  have hordered : ordered rawlen es = true ↔ ∃ p, (es.dropWhile fun p => !p.1.sameKey (intKey vs.length)) = [p] := by
    unfold ordered isRawarray
    rw [hraw, if_pos hpos]
    unfold hasNext
    generalize (es.dropWhile fun p => !p.1.sameKey (intKey vs.length)) = l
    rcases l with _ | ⟨p, _ | ⟨q, l⟩⟩ <;> simp [bind, Except.bind]
  rw [hordered]
  constructor
  · rintro ⟨p, hp⟩
    have hkey : p.1.sameKey (intKey vs.length) = true := by
      have hhead := List.head?_dropWhile_not (fun p : Value × Value => !p.1.sameKey (intKey vs.length)) es
      rw [hp] at hhead
      simpa using hhead
    refine ⟨es.takeWhile fun p => !p.1.sameKey (intKey vs.length), p.2, ?_⟩
    have hpair : (intKey vs.length, p.2) = p := by rw [← eq_of_sameKey hkey]
    rw [hcount, hpair, ← hp, List.takeWhile_append_dropWhile]
  · rintro ⟨init, v, hinit⟩
    rw [hcount] at hinit
    refine ⟨(intKey vs.length, v), ?_⟩
    rw [hinit] at hdist ⊢
    have hother : ∀ p ∈ init, (!p.1.sameKey (intKey vs.length)) = true := by
      intro p hp
      rw [(List.pairwise_append.mp hdist).2.2 p hp _ (List.mem_singleton.mpr rfl)]
      rfl
    rw [List.dropWhile_append_of_pos hother]
    simp [intKey, sameKey_integer_self]

end Sequence

/-! ### What is stored -/

theorem ordered_record {es : Entries} (h : StringKeys es) (hborder : IsBorder es (rawlen es)) :
    ordered rawlen es = false := by
  have hraw : isRawarray rawlen es = .ok false := by
    rw [isRawarray, if_neg (by rw [rawlen_record h hborder]; decide)]
  rw [ordered, hraw]

theorem tree_storable {v : Value} (h : Tree rawlen levels v) : Storable rawlen fmt levels v := by
  induction h with
  | boolean v => exact .boolean v
  | integer v => exact .integer v
  | number bits => exact .number bits
  | string h => exact .string h
  | @record levels es hkey hdist hborder hval ih =>
    have hstring : StringKeys es := fun p hp => (hkey p hp).imp fun _ hs => hs.1
    refine .table ?_ ih ?_
    · intro p hp
      obtain ⟨s, hs, hzero⟩ := hkey p hp
      exact ⟨s, by rw [hs]; rfl, hzero⟩
    · intro i hi
      rw [rawlen_record hstring hborder] at hi
      omega
  | @sequence levels es vs hes hne hlen hborder hval ih =>
    have hnil : ∀ v ∈ vs, v.isNil = false := fun v hv => (hval v hv).isNil_eq
    have hmem : ∀ p ∈ es, ∃ i v, v ∈ vs ∧ p = (intKey i, v) := by
      intro p hp
      rw [hes.mem_iff, mem_arrayEntries] at hp
      obtain ⟨j, v, hv, -, rfl⟩ := hp
      exact ⟨1 + j, v, List.mem_of_getElem? hv, rfl⟩
    refine .table ?_ ?_ ?_
    · intro p hp
      obtain ⟨i, v, -, rfl⟩ := hmem p hp
      refine ⟨_, rfl, ?_⟩
      split
      · rw [List.mem_cons, not_or]
        exact ⟨by decide, zero_not_mem_decimal _⟩
      · exact zero_not_mem_decimal _
    · intro p hp
      obtain ⟨i, v, hv, rfl⟩ := hmem p hp
      exact ih v hv
    · intro i hi
      rw [rawlen_sequence hes hnil (by omega) hborder] at hi
      rw [rawgeti_sequence hes hnil (by omega) hi]
      exact hnil _ (List.getElem_mem hi)

/-- Pairs with string keys that are distinct are set one behind the other. -/
theorem storedTable_record {es : Entries} (hkey : StringKeys es) (hdist : Distinct es)
    (hnil : ∀ p ∈ es, (stored rawlen fmt levels p.2).isNil = false) :
    storedTable rawlen fmt false levels (dictItems fmt es) = es.map fun p => (p.1, stored rawlen fmt levels p.2) := by
  have hloop : ∀ done : Entries, Distinct (done ++ es) →
      (dictItems fmt es).foldl (fun t p => setKey t (keyValue false p.1) (stored rawlen fmt levels p.2))
        (done.map fun p => (p.1, stored rawlen fmt levels p.2)) =
      (done ++ es).map fun p => (p.1, stored rawlen fmt levels p.2) := by
    clear hdist
    induction es with
    | nil => intro done _; rw [List.append_nil]; rfl
    | cons p es ih =>
      intro done hd
      obtain ⟨s, hs⟩ := hkey p List.mem_cons_self
      have hfresh : ∀ q ∈ done.map (fun p => (p.1, stored rawlen fmt levels p.2)), q.1.sameKey p.1 = false := by
        intro q hq
        obtain ⟨q', hq', rfl⟩ := List.mem_map.mp hq
        exact (List.pairwise_append.mp hd).2.2 q' hq' p List.mem_cons_self
      have hstep : setKey (done.map fun p => (p.1, stored rawlen fmt levels p.2))
        (keyValue false ((tolstring fmt p.1).getD []))
          (stored rawlen fmt levels p.2) = (done ++ [p]).map fun p => (p.1, stored rawlen fmt levels p.2) := by
        have hk : keyValue false ((tolstring fmt p.1).getD []) = p.1 := by rw [hs]; rfl
        rw [hk, setKey_fresh hfresh, hnil p List.mem_cons_self, List.map_append]
        rfl
      have hnext := ih (fun q hq => hkey q (List.mem_cons_of_mem _ hq)) (fun q hq => hnil q (List.mem_cons_of_mem _ hq))
        (done ++ [p]) (by rw [List.append_assoc]; exact hd)
      rw [dictItems, List.map_cons, List.foldl_cons, hstep, ← dictItems, hnext, List.append_assoc]
      rfl
  exact hloop [] hdist

theorem keyValue_numstr {i : Nat} (h : i < 2 ^ 31 - 1) : keyValue true (bsonNumstr i) = intKey (i + 1) := by
  rw [keyValue, if_pos rfl, bsonNumstr, Nat.mod_eq_of_lt (by omega), strtol_decimal (by omega)]
  have hto : toInt32 ((i : Int) + 1) = ((i + 1 : Nat) : Int) := toInt32_of_lt (n := i + 1) (by omega)
  rw [hto, BitVec.ofInt_natCast, intKey]

/-- An array is set one index behind the other. -/
theorem storedTable_sequence {es : Entries} {vs : List Value} (hes : es.Perm (arrayEntries 1 vs))
    (hlen : vs.length < 2 ^ 31 - 1)
    (hnil : ∀ v ∈ vs, v.isNil = false) (hstored : ∀ v ∈ vs, (stored rawlen fmt levels v).isNil = false) :
    storedTable rawlen fmt true levels ((List.range vs.length).map fun i => (bsonNumstr i, rawgeti es (i + 1))) =
      arrayEntries 1 (vs.map (stored rawlen fmt levels)) := by
  have hloop : ∀ n ≤ vs.length,
      storedTable rawlen fmt true levels ((List.range n).map fun i => (bsonNumstr i, rawgeti es (i + 1))) =
        arrayEntries 1 ((vs.take n).map (stored rawlen fmt levels)) := by
    intro n hn
    induction n with
    | zero => rfl
    | succ n ih =>
      have hget := rawgeti_sequence hes hnil (by omega) (i := n) (by omega)
      have hv : (stored rawlen fmt levels vs[n]).isNil = false := hstored _ (List.getElem_mem _)
      rw [List.range_succ, List.map_append, storedTable, List.foldl_append, ← storedTable, ih (by omega)]
      rw [List.take_succ_eq_append_getElem (by omega), List.map_append, arrayEntries_append]
      simp only [List.map_cons, List.map_nil, List.foldl_cons, List.foldl_nil, hget,
        keyValue_numstr (i := n) (by omega)]
      rw [setKey_fresh (arrayEntries_fresh (by simp; omega) (by omega) (.inr (by simp; omega))), hv,
        arrayEntries_singleton hv]
      rw [List.length_map, List.length_take, Nat.min_eq_left (by omega), Nat.add_comm 1 n]
      rfl
  have hall := hloop vs.length (Nat.le_refl _)
  rwa [List.take_length] at hall

theorem setKey_stringKeys {t : Entries} {key v : Value} (ht : StringKeys t) (hkey : ∃ s, key = .string s) :
    StringKeys (setKey t key v) := by
  unfold setKey
  split
  · exact fun p hp => ht p (List.mem_of_mem_filter hp)
  split
  · intro p hp
    obtain ⟨q, hq, rfl⟩ := List.mem_map.mp hp
    split
    · exact ht q hq
    · exact ht q hq
  · intro p hp
    rcases List.mem_append.mp hp with hp | hp
    · exact ht p hp
    · rw [List.mem_singleton.mp hp]
      exact hkey

/-- A document has string keys. -/
theorem storedTable_stringKeys (its : List (Bytes × Value)) : StringKeys (storedTable rawlen fmt false levels its) := by
  have hloop : ∀ t, StringKeys t →
      StringKeys (its.foldl (fun t p => setKey t (keyValue false p.1) (stored rawlen fmt levels p.2)) t) := by
    induction its with
    | nil => exact fun t ht => ht
    | cons p its ih => exact fun t ht => ih _ (setKey_stringKeys ht ⟨p.1, rfl⟩)
  exact hloop [] fun p hp => absurd hp List.not_mem_nil

theorem samePairs_mem {es es' : Entries} (h : SamePairs es es') : ∀ p ∈ es, ∃ q ∈ es', SamePair p q := by
  induction es generalizing es' with
  | nil => exact fun p hp => absurd hp List.not_mem_nil
  | cons e es ih =>
    cases h with
    | @cons k v k' v' _ _ rest hk hv hperm htail =>
      intro p hp
      rcases List.mem_cons.mp hp with rfl | hp
      · exact ⟨(k', v'), hperm.mem_iff.mpr List.mem_cons_self, hk, hv⟩
      · obtain ⟨q, hq, hsame⟩ := ih htail p hp
        exact ⟨q, hperm.mem_iff.mpr (List.mem_cons_of_mem _ hq), hsame⟩

theorem stored_isNil {v : Value} (h : Tree rawlen levels v) : (stored rawlen fmt levels v).isNil = false := by
  cases levels <;> cases h <;> rfl

/-! ### What comes back -/

theorem same_record {es : Entries} (hkey : StringKeys es) (hdist : Distinct es) :
    Same (.table es) (.table (es.map fun p => (p.1, stored rawlen fmt levels p.2))) ↔
      ∀ p ∈ es, Same p.2 (stored rawlen fmt levels p.2) := by
  constructor
  · intro h p hp
    cases h with
    | table hpairs =>
      obtain ⟨q, hq, hk, hv⟩ := samePairs_mem hpairs p hp
      obtain ⟨p', hp', rfl⟩ := List.mem_map.mp hq
      -- the keys are the same string, so the pairs are the same
      obtain ⟨s, hs⟩ := hkey p hp
      have hself : p.1.sameKey p.1 = true := by rw [hs]; exact sameKey_string_self s
      have hkeys : p.1 = p'.1 := eq_of_sameKey (by rw [sameKey_right hk]; exact hself)
      have hvals : p.2 = p'.2 := by
        rw [← rawget_of_mem hdist hself hp, hkeys]
        exact rawget_of_mem hdist (by rw [← hkeys]; exact hself) hp'
      rw [hvals]
      rw [hvals] at hv
      exact hv
  · intro h
    have hforall : List.Forall₂ SamePair es (es.map fun p => (p.1, stored rawlen fmt levels p.2)) := by
      rw [List.forall₂_map_right_iff, List.forall₂_same]
      intro p hp
      obtain ⟨s, hs⟩ := hkey p hp
      exact ⟨by rw [hs]; exact .string s, h p hp⟩
    exact .table (samePairs_of_forall₂ hforall (List.Perm.refl _))

theorem same_sequence {es : Entries} {vs : List Value} (hes : es.Perm (arrayEntries 1 vs))
    (hlen : vs.length < 2 ^ 31 - 1)
    (hnil : ∀ v ∈ vs, v.isNil = false) :
    Same (.table es) (.table (arrayEntries 1 (vs.map (stored rawlen fmt levels)))) ↔
      ∀ v ∈ vs, Same v (stored rawlen fmt levels v) := by
  constructor
  · intro h v hv
    cases h with
    | table hpairs =>
      obtain ⟨j, hj, rfl⟩ := List.getElem_of_mem hv
      have hmem : (intKey (1 + j), vs[j]) ∈ es := by
        rw [hes.mem_iff, mem_arrayEntries]
        exact ⟨j, vs[j], List.getElem?_eq_getElem hj, hnil _ hv, rfl⟩
      obtain ⟨q, hq, hk, hval⟩ := samePairs_mem hpairs _ hmem
      rw [mem_arrayEntries] at hq
      obtain ⟨j', w, hw, -, rfl⟩ := hq
      rw [List.getElem?_map] at hw
      obtain ⟨v', hv', rfl⟩ := Option.map_eq_some_iff.mp hw
      have hj' : j' < vs.length := (List.getElem?_eq_some_iff.mp hv').1
      have heq : j = j' := by
        by_contra hne
        have hfalse : (intKey (1 + j)).sameKey (intKey (1 + j')) = false :=
          sameKey_intKey (by omega) (by omega) (by omega)
        rw [sameKey_right hk, intKey, sameKey_integer_self] at hfalse
        cases hfalse
      rw [← heq, List.getElem?_eq_getElem hj] at hv'
      cases hv'
      exact hval
  · intro h
    have hforall : List.Forall₂ Same vs (vs.map (stored rawlen fmt levels)) := by
      rw [List.forall₂_map_right_iff, List.forall₂_same]
      exact h
    exact .table (samePairs_of_perm hes (arrayEntries_same hforall 1) (List.Perm.refl _))

theorem Arranged.of_table {es : Entries} (h : Arranged (.table es)) :
    (StringKeys es ∨ LengthLast es) ∧ ∀ p ∈ es, Arranged p.2 := by
  cases h with
  | table h hval => exact ⟨h, hval⟩

/-- A tree comes back just when it is arranged. -/
theorem same_stored_iff {v : Value} (h : Tree rawlen levels v) : Same v (stored rawlen fmt levels v) ↔ Arranged v := by
  induction h with
  | @boolean levels v => cases levels <;> exact ⟨fun _ => .boolean v, fun _ => .boolean v⟩
  | @integer levels v => cases levels <;> exact ⟨fun _ => .integer v, fun _ => .integer v⟩
  | @number levels bits => cases levels <;> exact ⟨fun _ => .number bits, fun _ => .number bits⟩
  | @string levels s h => cases levels <;> exact ⟨fun _ => .string s, fun _ => .string s⟩
  | @record levels es hkey hdist hborder hval ih =>
    have hstring : StringKeys es := fun p hp => (hkey p hp).imp fun _ hs => hs.1
    have hstored :
        stored rawlen fmt (levels + 1) (.table es) = .table (es.map fun p => (p.1, stored rawlen fmt levels p.2)) := by
      rw [← storedTable_record hstring hdist fun p hp => stored_isNil (hval p hp)]
      change Value.table (storedTable rawlen fmt (ordered rawlen es) levels (items rawlen fmt es)) = _
      rw [items, ordered_record hstring hborder]
      rfl
    rw [hstored, same_record hstring hdist]
    constructor
    · exact fun hsame => .table (.inl hstring) fun p hp => (ih p hp).mp (hsame p hp)
    · exact fun harr p hp => (ih p hp).mpr (harr.of_table.2 p hp)
  | @sequence levels es vs hes hne hlen hborder hval ih =>
    have hnil : ∀ v ∈ vs, v.isNil = false := fun v hv => (hval v hv).isNil_eq
    have hcode := ordered_sequence hes hne hnil (by omega) hborder
    have hraw := rawlen_sequence hes hnil (by omega) hborder
    -- the first value of the sequence, whose key is no string
    obtain ⟨v₀, hv₀⟩ := List.exists_mem_of_ne_nil vs hne
    obtain ⟨j, hj, rfl⟩ := List.getElem_of_mem hv₀
    have hmem : ∀ i (hi : i < vs.length), (intKey (1 + i), vs[i]) ∈ es := by
      intro i hi
      rw [hes.mem_iff, mem_arrayEntries]
      exact ⟨i, vs[i], List.getElem?_eq_getElem hi, hnil _ (List.getElem_mem hi), rfl⟩
    cases ho : ordered rawlen es with
    | true =>
      have hstored :
          stored rawlen fmt (levels + 1) (.table es) = .table (arrayEntries 1 (vs.map (stored rawlen fmt levels))) := by
        rw [← storedTable_sequence hes hlen hnil fun v hv => stored_isNil (hval v hv)]
        change Value.table (storedTable rawlen fmt (ordered rawlen es) levels (items rawlen fmt es)) = _
        rw [items, ho, hraw]
        rfl
      rw [hstored, same_sequence hes hlen hnil]
      constructor
      · intro hsame
        refine .table (.inr (hcode.mp ho)) ?_
        intro p hp
        rw [hes.mem_iff, mem_arrayEntries] at hp
        obtain ⟨i, v, hv, -, rfl⟩ := hp
        exact (ih v (List.mem_of_getElem? hv)).mp (hsame v (List.mem_of_getElem? hv))
      · intro harr v hv
        obtain ⟨i, hi, rfl⟩ := List.getElem_of_mem hv
        exact (ih _ hv).mpr (harr.of_table.2 _ (hmem i hi))
    | false =>
      have hstored :
          stored rawlen fmt (levels + 1) (.table es) =
            .table (storedTable rawlen fmt false levels (dictItems fmt es)) := by
        change Value.table (storedTable rawlen fmt (ordered rawlen es) levels (items rawlen fmt es)) = _
        rw [items, ho]
        rfl
      rw [hstored]
      constructor
      · intro hsame
        cases hsame with
        | table hpairs =>
          obtain ⟨q, hq, hk, -⟩ := samePairs_mem hpairs _ (hmem j hj)
          obtain ⟨s, hs⟩ := storedTable_stringKeys _ q hq
          rw [hs] at hk
          cases hk
      · intro harr
        rcases harr.of_table.1 with hstring | hlast
        · obtain ⟨s, hs⟩ := hstring _ (hmem j hj)
          cases hs
        · rw [hcode.mpr hlast] at ho
          cases ho

end Order

end Bson
end Skynet
