import Skynet.Sharedata.Find

/-!
# Skynet.Sharedata.Faithful

The structure of a table whose keys are strings and integers of 32 bits reads as the table does.

* `Faithful` : each key is answered with its value, any other key with nil, and a walk with
  `lnextkey` meets each key once; the tables in it are faithful too.
* `Built.full` : for such keys no slot is left over, and no two slots have the same key.
* `lnewconf_faithful` : what `lnewconf` makes is faithful, and it makes it unless something it needs runs out.
-/

namespace Skynet
namespace Sharedata

open Lua

/-! ### What is asked for -/

section Spec

variable (L : Int → Option Bytes)

mutual

/-- The answer is the value, or a structure that reads as the table. -/
def Stored : Value → Answer → Prop
  | .table es, a => ∃ tbl, a = .table tbl ∧ StoredPairs tbl es ∧
      (∀ k, PlainKey k → (∀ p ∈ es, p.1 ≠ k) →
        ∃ r, lindexconf L tbl k = .ok r ∧ Answer.adjust r = .value .nil) ∧
      ∃ ks, traverse L tbl (ks.length + 1) .nil = .ok ks ∧ ks.Perm (es.map Prod.fst)
  | v, a => a = .value v

def StoredPairs (tbl : Table) : List (Value × Value) → Prop
  | [] => True
  | (k, v) :: es => (∃ a, lindexconf L tbl k = .ok (some a) ∧ Stored v a) ∧ StoredPairs tbl es

end

/-- A structure that reads as a table. -/
def Faithful (tbl : Table) (es : Entries) : Prop := Stored L (.table es) (.table tbl)

end Spec

/-! ### Plain keys -/

section Plain

variable {L : Int → Option Bytes} {conv : Conv} {A : Nat} {es : Entries} {m : StringMap} {tbl : Table}

theorem PlainKey.isKey {k : Value} (h : PlainKey k) : IsKey k := by
  cases k <;> first | exact True.intro | exact h.elim

theorem PlainKey.sameKey {k : Value} (h : PlainKey k) : k.sameKey k = true := by
  cases k with
  | integer d => exact beq_self_eq_true d
  | string s => exact beq_self_eq_true s
  | _ => exact h.elim

theorem PlainKey.eq_of_name {k k' : Value} (h : PlainKey k) (h' : PlainKey k') (hname : nameOf k = nameOf k') : k = k' := by
  cases k with
  | integer d =>
    cases k' with
    | integer d' =>
      have hint : toInt d = toInt d' := by simpa using hname
      rw [toInt_of_fits h.1 h.2, toInt_of_fits h'.1 h'.2] at hint
      rw [BitVec.toInt_inj.mp hint]
    | string s => cases hname
    | _ => exact h'.elim
  | string s =>
    cases k' with
    | integer d' => cases hname
    | string s' =>
      have hs : s = s' := by simpa using hname
      rw [hs]
    | _ => exact h'.elim
  | _ => exact h.elim

theorem countKey_plain {k : Value} (h : PlainKey k) :
    countKey A k = .ok (if inArray A (nameOf k) then 0 else 1) := by
  cases k with
  | integer d =>
    simp only [countKey, nameOf_integer, toInt_of_fits h.1 h.2, inArray, decide_eq_true_eq]
  | string s => rfl
  | _ => exact h.elim

theorem countsize_plain (h : PlainPairs es) : countsize A es = .ok (es.countP (isHash A)) := by
  induction es with
  | nil => rfl
  | cons p es ih =>
    obtain ⟨hkey, -, hes⟩ := h
    rw [countsize, countKey_plain hkey, ih hes, List.countP_cons, isHash]
    cases inArray A (nameOf p.1) <;> simp [bind, Except.bind, Nat.add_comm]

theorem Plain.names_ne (h : Plain es) : es.Pairwise fun p q => nameOf p.1 ≠ nameOf q.1 := by
  refine h.1.imp_of_mem ?_
  intro p q hp hq hne hname
  have heq := (h.2.mem hp).1.eq_of_name (h.2.mem hq).1 hname
  rw [heq, (h.2.mem hq).1.sameKey] at hne
  cases hne

theorem Plain.inj (h : Plain es) {p q : Value × Value} (hp : p ∈ es) (hq : q ∈ es) (hname : nameOf p.1 = nameOf q.1) :
    p = q :=
  List.inj_on_of_nodup_map (List.pairwise_map.mpr h.names_ne) hp hq hname

theorem pushkey_eq (hL : Reads L m) {n : Node Table} {k : Value} (hk : PlainKey k) (hn : n.name m = some (nameOf k)) :
    pushkey L n = k := by
  cases k with
  | integer d =>
    rw [nameOf_integer, toInt_of_fits hk.1 hk.2, Node.name] at hn
    cases hkt : n.keytype with
    | integer =>
      rw [hkt] at hn
      have hkey : n.key = d.toInt := by simpa [named] using hn
      rw [pushkey, hkt, hkey]
      simp
    | string =>
      rw [hkt] at hn
      obtain ⟨s, -, hs⟩ := Option.map_eq_some_iff.mp hn
      cases hs
  | string s =>
    rw [Node.name] at hn
    cases hkt : n.keytype with
    | integer => rw [hkt] at hn; cases hn
    | string =>
      rw [hkt] at hn
      obtain ⟨s', hs', hs⟩ := Option.map_eq_some_iff.mp hn
      cases hs
      rw [pushkey, hkt, hL _ (convert_stringmap_eq_some.mp hs')]
      rfl
  | _ => exact hk.elim

/-! ### No slot is left over -/

/-- The hash part has the keys of the table that are not in the array part, each in one slot. -/
structure Full (es : Entries) (m : StringMap) (tbl : Table) : Prop where
  used : ∀ n ∈ tbl.hash, n.v.isNil = false
  nodup : (tbl.hash.map fun n => n.name m).Nodup

theorem Built.full (hb : Built conv A es m tbl) (h : Plain es) : Full es m tbl := by
  have hsize : tbl.hash.length = es.countP (isHash A) := by
    have hcount := hb.count
    rw [countsize_plain h.2] at hcount
    exact (Except.ok.inj hcount).symm
  let slot := fun n : Node Table => if n.v.isNil then none else n.name m
  let names := (es.filter (isHash A)).map fun p => some (nameOf p.1)
  have hnodup : names.Nodup := List.pairwise_map.mpr
    ((h.names_ne.imp fun hne he => hne (Option.some.inj he)).sublist List.filter_sublist)
  have hsub : names ⊆ tbl.hash.map slot := by
    intro a ha
    obtain ⟨p, hp, rfl⟩ := List.mem_map.mp ha
    obtain ⟨hp, hhash⟩ := List.mem_filter.mp hp
    obtain ⟨i, n, hi, hn, hname⟩ := hb.hash p hp hhash
    exact List.mem_map.mpr ⟨n, List.mem_of_getElem? hi, by simp [slot, hn, hname]⟩
  have hlen : (tbl.hash.map slot).length = names.length := by
    rw [List.length_map, List.length_map, hsize, List.countP_eq_length_filter]
  have hperm := (hnodup.subperm hsub).perm_of_length_le (Nat.le_of_eq hlen)
  have hused : ∀ n ∈ tbl.hash, n.v.isNil = false := by
    intro n hn
    have hmem := hperm.mem_iff.mpr (List.mem_map.mpr ⟨n, hn, rfl⟩)
    obtain ⟨p, -, hp⟩ := List.mem_map.mp hmem
    cases hnil : n.v.isNil with
    | false => rfl
    | true => simp [slot, hnil] at hp
  refine ⟨hused, ?_⟩
  rw [show tbl.hash.map (fun n => n.name m) = tbl.hash.map slot from
    List.map_congr_left fun n hn => by simp [slot, hused n hn]]
  exact hperm.nodup_iff.mp hnodup

/-! ### Walking -/

/-- Each key is the next one of the key before it, and after the last there is none. -/
def Follows (next : Value → Except Fault (Option Value)) : Value → List Value → Prop
  | k, [] => next k = .ok none
  | k, k' :: ks => next k = .ok (some k') ∧ Follows next k' ks

theorem traverse_follows {k : Value} {ks : List Value} (h : Follows (lnextkey L tbl) k ks) :
    traverse L tbl (ks.length + 1) k = .ok ks := by
  induction ks generalizing k with
  | nil =>
    rw [Follows] at h
    simp [traverse, h, bind, Except.bind]
  | cons k' ks ih =>
    obtain ⟨hnext, hrest⟩ := h
    rw [List.length_cons, traverse, hnext]
    simp [bind, Except.bind, ih hrest]

def hashKeys (L : Int → Option Bytes) (tbl : Table) : List Value := tbl.hash.map (pushkey L)

/-- The keys of the values that are not nil, from an index on. -/
def arrayKeys : List (Val Table) → Nat → List Value
  | [], _ => []
  | v :: vs, i => if v.isNil then arrayKeys vs (i + 1) else .integer (BitVec.ofNat 64 (i + 1)) :: arrayKeys vs (i + 1)

theorem findIdx_arrayKeys (vs : List (Val Table)) (i : Nat) :
    ((vs.findIdx? fun v => !v.isNil).map fun j => Value.integer (BitVec.ofNat 64 (i + j + 1))) = (arrayKeys vs i).head? := by
  induction vs generalizing i with
  | nil => rfl
  | cons v vs ih =>
    rw [List.findIdx?_cons, arrayKeys]
    cases v.isNil with
    | true =>
      simp only [Bool.not_true, Bool.false_eq_true, if_false, if_true]
      rw [← ih, Option.map_map]
      congr 1
      funext j
      simp only [Function.comp_apply]
      rw [show i + (j + 1) + 1 = i + 1 + j + 1 by omega]
    | false => rfl

theorem mem_arrayKeys {vs : List (Val Table)} {i : Nat} {k : Value} :
    k ∈ arrayKeys vs i ↔ ∃ (j : Nat) (w : Val Table), vs[j]? = some w ∧ w.isNil = false ∧
      k = .integer (BitVec.ofNat 64 (i + j + 1)) := by
  induction vs generalizing i with
  | nil => simp [arrayKeys]
  | cons v vs ih =>
    have hrest : (∃ (j : Nat) (w : Val Table), vs[j]? = some w ∧ w.isNil = false ∧
        k = .integer (BitVec.ofNat 64 (i + 1 + j + 1))) ↔
        ∃ (j : Nat) (w : Val Table), (v :: vs)[j + 1]? = some w ∧ w.isNil = false ∧
          k = .integer (BitVec.ofNat 64 (i + (j + 1) + 1)) := by
      simp only [List.getElem?_cons_succ, Nat.add_assoc, Nat.add_comm 1]
    rw [arrayKeys]
    split
    · rename_i hnil
      rw [ih, hrest]
      constructor
      · rintro ⟨j, w, h⟩
        exact ⟨j + 1, w, h⟩
      · rintro ⟨j, w, hj, hw, hk⟩
        cases j with
        | zero =>
          cases hj
          rw [hnil] at hw
          cases hw
        | succ j => exact ⟨j, w, hj, hw, hk⟩
    · rename_i hval
      rw [List.mem_cons, ih, hrest]
      constructor
      · rintro (rfl | ⟨j, w, h⟩)
        · exact ⟨0, v, rfl, by simpa using hval, rfl⟩
        · exact ⟨j + 1, w, h⟩
      · rintro ⟨j, w, hj, hw, hk⟩
        cases j with
        | zero => exact .inl hk
        | succ j => exact .inr ⟨j, w, hj, hw, hk⟩

theorem arrayKeys_nodup {vs : List (Val Table)} {i : Nat} (h : i + vs.length < 2 ^ 64) : (arrayKeys vs i).Nodup := by
  induction vs generalizing i with
  | nil => exact List.nodup_nil
  | cons v vs ih =>
    rw [List.length_cons] at h
    have hvs := ih (i := i + 1) (by omega)
    rw [arrayKeys]
    split
    · exact hvs
    · refine List.nodup_cons.mpr ⟨fun hmem => ?_, hvs⟩
      obtain ⟨j, w, hj, -, hk⟩ := mem_arrayKeys.mp hmem
      have hlt := (List.getElem?_eq_some_iff.mp hj).1
      have hnat := congrArg BitVec.toNat (Value.integer.inj hk)
      rw [BitVec.toNat_ofNat, BitVec.toNat_ofNat] at hnat
      omega

theorem lnextkey_hash {k : Value} (hk : IsKey k) (hname : inArray tbl.sizearray (nameOf k) = false) :
    lnextkey L tbl k = (lookupName L tbl (nameOf k)).map (nexthash L tbl) := by
  cases k with
  | integer d =>
    have hout : ¬(0 < toInt d ∧ toInt d ≤ tbl.sizearray) := of_decide_eq_false hname
    simp only [lnextkey, if_neg hout]
    rfl
  | string s => rfl
  | _ => exact hk.elim

/-- The key in a slot is a key of the table. -/
theorem Built.slot_key (hb : Built conv A es m tbl) (h : Plain es) (hL : Reads L m) {i : Nat} {n : Node Table}
    (hi : tbl.hash[i]? = some n) (hn : n.v.isNil = false) :
    ∃ p ∈ es, pushkey L n = p.1 ∧ n.name m = some (nameOf p.1) ∧ inArray A (nameOf p.1) = false := by
  obtain ⟨p, hp, hin, hname, -, -⟩ := (hb.sound.node i n hi hn).source
  exact ⟨p, hp, pushkey_eq hL (h.2.mem hp).1 hname, hname, hin⟩

/-- The key in a slot leads to the one in the next slot. -/
theorem lnextkey_slot (hb : Built conv A es m tbl) (h : Plain es) (hL : Reads L m) (hfull : Full es m tbl) {i : Nat}
    {n : Node Table} (hi : tbl.hash[i]? = some n) :
    lnextkey L tbl (pushkey L n) = .ok (tbl.hash[i + 1]?.map (pushkey L)) := by
  have hval := hfull.used n (List.mem_of_getElem? hi)
  obtain ⟨p, hp, hkey, hname, hin⟩ := hb.slot_key h hL hi hval
  have hA : tbl.sizearray = A := hb.sound.sizearray
  obtain ⟨j, n', hj, hn', -, hname'⟩ := lookupName_present hb.sound hL hi hval hname
  have hlt : i < (tbl.hash.map fun n => n.name m).length := by
    rw [List.length_map]
    exact (List.getElem?_eq_some_iff.mp hi).1
  have hij : i = j := by
    apply (List.getElem?_inj hlt hfull.nodup).mp
    rw [List.getElem?_map, List.getElem?_map, hi, hn', Option.map_some, Option.map_some, hname, hname']
  rw [hkey, lnextkey_hash (h.2.mem hp).1.isKey (by rw [hA, hin]), hj, ← hij]
  rfl

theorem follows_hash (hb : Built conv A es m tbl) (h : Plain es) (hL : Reads L m) (hfull : Full es m tbl)
    {ns : List (Node Table)} {i : Nat} (hns : tbl.hash.drop i = ns) {k : Value}
    (hk : lnextkey L tbl k = .ok (ns.head?.map (pushkey L))) : Follows (lnextkey L tbl) k (ns.map (pushkey L)) := by
  induction ns generalizing i k with
  | nil => exact hk
  | cons n ns ih =>
    have hi : tbl.hash[i]? = some n := by rw [← List.head?_drop, hns]; rfl
    have hrest : tbl.hash.drop (i + 1) = ns := by rw [← List.drop_drop, hns]; rfl
    refine ⟨hk, ih hrest ?_⟩
    rw [lnextkey_slot hb h hL hfull hi, ← List.head?_drop, hrest]

/-- The walk from an index of the array part on. -/
theorem follows_array (hb : Built conv A es m tbl) (h : Plain es) (hL : Reads L m) (hfull : Full es m tbl)
    (hA : A < 2 ^ 31) {vs : List (Val Table)} {i : Nat} (hvs : tbl.array.drop i = vs) {k : Value}
    (hk : lnextkey L tbl k = .ok ((nextarray tbl i).or (pushfirsthash L tbl))) :
    Follows (lnextkey L tbl) k (arrayKeys vs i ++ hashKeys L tbl) := by
  have hnext : ∀ i, nextarray tbl i = (arrayKeys (tbl.array.drop i) i).head? := fun i => findIdx_arrayKeys _ i
  induction vs generalizing i k with
  | nil =>
    rw [hnext, hvs] at hk
    exact follows_hash hb h hL hfull (List.drop_zero ..) hk
  | cons v vs ih =>
    have hlt : i < tbl.array.length := by
      by_contra hge
      rw [List.drop_eq_nil_of_le (by omega)] at hvs
      cases hvs
    have hrest : tbl.array.drop (i + 1) = vs := by rw [← List.drop_drop, hvs]; rfl
    rw [hnext, hvs] at hk
    rw [arrayKeys] at hk ⊢
    cases hnil : v.isNil with
    | true =>
      rw [hnil, if_pos rfl] at hk
      rw [if_pos rfl]
      apply ih hrest
      rw [hnext, hrest]
      exact hk
    | false =>
      rw [hnil, if_neg Bool.false_ne_true] at hk
      rw [if_neg Bool.false_ne_true]
      refine ⟨hk, ih hrest ?_⟩
      have hlen : tbl.array.length = A := hb.sound.sizearray
      have hint : toInt (BitVec.ofNat 64 (i + 1)) = (i + 1 : Nat) := by
        have hname := nameOf_index (i := i) (by omega)
        rwa [nameOf_integer, Name.integer.injEq] at hname
      simp only [lnextkey, hint]
      rw [if_pos (by rw [Table.sizearray]; omega), Int.toNat_natCast]

theorem plainKey_index {i : Nat} (hi : i + 1 < 2 ^ 31) : PlainKey (.integer (BitVec.ofNat 64 (i + 1))) := by
  have hint : (BitVec.ofNat 64 (i + 1)).toInt = (i + 1 : Nat) := toInt_ofNat_of_lt (by omega)
  exact ⟨by omega, by omega⟩

theorem Built.array_key (hb : Built conv A es m tbl) (h : Plain es) (hA : A < 2 ^ 31) {k : Value}
    (hk : k ∈ arrayKeys tbl.array 0) : ∃ p ∈ es, k = p.1 ∧ inArray A (nameOf p.1) = true := by
  obtain ⟨i, w, hi, hw, rfl⟩ := mem_arrayKeys.mp hk
  have hlt := (List.getElem?_eq_some_iff.mp hi).1
  rw [hb.sound.sizearray] at hlt
  obtain ⟨p, hp, hname, -⟩ := hb.sound.array i w hi hw
  rw [Nat.zero_add]
  refine ⟨p, hp, ?_, inArray_iff.mpr ⟨i, hname, hlt⟩⟩
  exact (plainKey_index (by omega)).eq_of_name (h.2.mem hp).1 ((nameOf_index (by omega)).trans hname.symm)

theorem Built.hash_key (hb : Built conv A es m tbl) (h : Plain es) (hL : Reads L m) {n : Node Table} (hn : n ∈ tbl.hash) :
    ∃ p ∈ es, pushkey L n = p.1 ∧ n.name m = some (nameOf p.1) ∧ inArray A (nameOf p.1) = false := by
  obtain ⟨i, hi⟩ := List.mem_iff_getElem?.mp hn
  exact hb.slot_key h hL hi ((hb.full h).used n hn)

theorem Built.keys_nodup (hb : Built conv A es m tbl) (h : Plain es) (hL : Reads L m) (hA : A < 2 ^ 31) :
    (arrayKeys tbl.array 0 ++ hashKeys L tbl).Nodup := by
  have hlen : tbl.array.length = A := hb.sound.sizearray
  have hnames : (hashKeys L tbl).map (fun k => some (nameOf k)) = tbl.hash.map fun n => n.name m := by
    rw [hashKeys, List.map_map]
    refine List.map_congr_left fun n hn => ?_
    obtain ⟨p, -, hkey, hname, -⟩ := hb.hash_key h hL hn
    rw [Function.comp_apply, hkey, hname]
  refine List.nodup_append'.mpr ⟨arrayKeys_nodup (by omega), ?_, fun k hk hk' => ?_⟩
  · exact List.Nodup.of_map _ (hnames ▸ (hb.full h).nodup)
  · obtain ⟨p, -, rfl, hin⟩ := hb.array_key h hA hk
    obtain ⟨n, hn, hkey⟩ := List.mem_map.mp hk'
    obtain ⟨q, -, hq, -, hin'⟩ := hb.hash_key h hL hn
    rw [← hkey, hq, hin'] at hin
    cases hin

theorem Built.mem_keys (hb : Built conv A es m tbl) (h : Plain es) (hL : Reads L m) (hA : A < 2 ^ 31)
    {p : Value × Value} (hp : p ∈ es) : p.1 ∈ arrayKeys tbl.array 0 ++ hashKeys L tbl := by
  rw [List.mem_append]
  cases hin : inArray A (nameOf p.1) with
  | true =>
    obtain ⟨i, hi, hlt⟩ := inArray_iff.mp hin
    obtain ⟨w, hw, hval⟩ := hb.array p hp i hi hlt
    refine .inl (mem_arrayKeys.mpr ⟨i, w, hw, hval, ?_⟩)
    rw [Nat.zero_add]
    exact (h.2.mem hp).1.eq_of_name (plainKey_index (by omega)) (hi.trans (nameOf_index (by omega)).symm)
  | false =>
    obtain ⟨i, n, hi, hn, hname⟩ := hb.hash p hp (by rw [isHash, hin]; rfl)
    exact .inr (List.mem_map.mpr ⟨n, List.mem_of_getElem? hi, pushkey_eq hL (h.2.mem hp).1 hname⟩)

theorem Built.walk (hb : Built conv A es m tbl) (h : Plain es) (hL : Reads L m) (hA : A < 2 ^ 31) :
    ∃ ks, traverse L tbl (ks.length + 1) .nil = .ok ks ∧ ks.Perm (es.map Prod.fst) := by
  have hfollows := follows_array hb h hL (hb.full h) hA (List.drop_zero ..) (show lnextkey L tbl .nil = _ from rfl)
  refine ⟨_, traverse_follows hfollows, ?_⟩
  have hkeys : (es.map Prod.fst).Nodup := by
    refine List.pairwise_map.mpr (h.names_ne.imp fun hne he => ?_)
    rw [he] at hne
    exact hne rfl
  refine (List.perm_ext_iff_of_nodup (hb.keys_nodup h hL hA) hkeys).mpr fun k => ⟨fun hk => ?_, fun hk => ?_⟩
  · rcases List.mem_append.mp hk with hk | hk
    · obtain ⟨p, hp, rfl, -⟩ := hb.array_key h hA hk
      exact List.mem_map_of_mem hp
    · obtain ⟨n, hn, rfl⟩ := List.mem_map.mp hk
      obtain ⟨p, hp, hkey, -⟩ := hb.hash_key h hL hn
      rw [hkey]
      exact List.mem_map_of_mem hp
  · obtain ⟨p, hp, rfl⟩ := List.mem_map.mp hk
    exact hb.mem_keys h hL hA hp

/-! ### Reading -/

theorem Built.absent (hb : Built conv A es m tbl) (h : Plain es) (hL : Reads L m) {k : Value} (hk : PlainKey k)
    (hnot : ∀ p ∈ es, p.1 ≠ k) : ∃ r, lindexconf L tbl k = .ok r ∧ Answer.adjust r = .value .nil := by
  have hA : tbl.sizearray = A := hb.sound.sizearray
  have hother : ∀ p ∈ es, nameOf p.1 ≠ nameOf k := fun p hp hname => hnot p hp ((h.2.mem hp).1.eq_of_name hk hname)
  cases hin : inArray A (nameOf k) with
  | true =>
    obtain ⟨i, hi, hlt⟩ := inArray_iff.mp hin
    refine ⟨_, lindexconf_array hk.isKey hi (by omega), ?_⟩
    have hlen : i < tbl.array.length := by
      rw [hb.sound.sizearray]
      exact hlt
    rw [List.getElem?_eq_getElem hlen]
    cases hw : tbl.array[i].isNil with
    | true =>
      cases hv : tbl.array[i] with
      | nil => rfl
      | _ => rw [hv] at hw; cases hw
    | false =>
      obtain ⟨p, hp, hname, -⟩ := hb.sound.array i _ (List.getElem?_eq_getElem hlen) hw
      exact absurd (hname.trans hi.symm) (hother p hp)
  | false =>
    have hfull := hb.full h
    refine ⟨none, ?_, rfl⟩
    rw [lindexconf_hash hk.isKey (by rw [hA, hin]), lookupName_absent hb.sound hL hfull.used fun n hn hname => ?_]
    · rfl
    · obtain ⟨p, hp, -, hp', -⟩ := hb.hash_key h hL hn
      rw [hname, Option.some.injEq] at hp'
      exact hother p hp hp'.symm

theorem Built.present (hb : Built conv A es m tbl) (h : Plain es) (hL : Reads L m) {p : Value × Value} (hp : p ∈ es) :
    ∃ w, lindexconf L tbl p.1 = .ok (some (pushvalue L w)) ∧ Agrees conv m w p.2 := by
  obtain ⟨w, hw, -, q, hq, hname, hv⟩ := lindexconf_present hb hL (h.2.mem hp).1.isKey hp rfl
  rw [h.inj hq hp hname] at hv
  exact ⟨w, hw, hv⟩

end Plain

theorem storedPairs_iff {L : Int → Option Bytes} {tbl : Table} {es : Entries} :
    StoredPairs L tbl es ↔ ∀ p ∈ es, ∃ a, lindexconf L tbl p.1 = .ok (some a) ∧ Stored L p.2 a := by
  induction es with
  | nil => simp [StoredPairs]
  | cons p es ih =>
    rw [StoredPairs, ih, List.forall_mem_cons]

/-- Every table in the structure is faithful. -/
theorem Made.faithful {host : Host} {L : Int → Option Bytes} {calls : Nat} {es : Entries} {m : StringMap} {tbl : Table}
    (h : Plain es) (hL : Reads L m) (hm : Made (convtable host calls) m tbl es) : Faithful L tbl es := by
  induction calls generalizing es m tbl with
  | zero =>
    obtain ⟨ctx, ctx', hconv, -⟩ := hm
    cases hconv
  | succ calls ih =>
    obtain ⟨ctx, ctx', hconv, hsub⟩ := hm
    obtain ⟨-, n, hn, hb⟩ := (convtable_outcome host h.lua ctx).of_ok hconv
    obtain rfl : calls = n := by omega
    have hL' := hL.sub hsub
    refine ⟨tbl, rfl, storedPairs_iff.mpr fun p hp => ?_, fun k hk hnot => hb.absent h hL' hk hnot, hb.walk h hL' (host.rawlen_lt es)⟩
    obtain ⟨w, hw, hv⟩ := hb.present h hL' hp
    refine ⟨_, hw, ?_⟩
    have hplain := (h.2.mem hp).2
    generalize p.2 = v at hv hplain
    cases hv with
    | nil => exact hplain.elim
    | real bits => rfl
    | integer d => rfl
    | string hs =>
      rw [pushvalue, hL' _ hs]
      rfl
    | boolean b => rfl
    | table ht => exact ih hplain hL' ht

/-! ### `lnewconf` -/

theorem lnewconf_ok {host : Host} {calls : Nat} {es : Entries} {conf : Conf} (h : lnewconf host calls es = .ok conf) :
    ∃ m, conf.L = convert_stringmap m ∧ Made (convtable host calls) m conf.root es := by
  unfold lnewconf at h
  cases h₀ : malloc host ⟨.init, 0⟩ with
  | error e => rw [h₀] at h; cases h
  | ok r₀ =>
    rw [h₀] at h
    simp only [bind, Except.bind] at h
    cases h₁ : malloc host r₀.2 with
    | error e => rw [h₁] at h; cases h
    | ok r₁ =>
      rw [h₁] at h
      simp only at h
      cases hconv : convtable host calls es r₁.2 with
      | error e => rw [hconv] at h; cases h
      | ok r =>
        rw [hconv] at h
        simp only at h
        split at h
        · cases h
        · cases h
          exact ⟨r.2.stringmap, rfl, r₁.2, r.2, hconv, .refl _⟩

theorem malloc_ok {host : Host} (h : ∀ n, (host.malloc n).isSome) (ctx : Context) : ∃ r, malloc host ctx = .ok r := by
  obtain ⟨junk, hjunk⟩ := Option.isSome_iff_exists.mp (h ctx.mallocs)
  exact ⟨(junk, { ctx with mallocs := ctx.mallocs + 1 }), by simp only [malloc, hjunk]⟩

theorem convtable_ok {host : Host} {calls : Nat} {es : Entries} (h : Plain es) (hmem : ∀ n, (host.malloc n).isSome)
    (hwidth : max es.length (width es) < 2 ^ 31) (hcalls : depth es < calls) (ctx : Context) :
    ∃ r, convtable host calls es ctx = .ok r := by
  cases hconv : convtable host calls es ctx with
  | ok r => exact ⟨r, rfl⟩
  | error e =>
    have hrefused := (convtable_outcome host h.lua ctx).of_error hconv
    cases e with
    | memory =>
      obtain ⟨n, hn⟩ := hrefused
      have hsome := hmem n
      rw [hn] at hsome
      cases hsome
    | cStack => exact absurd hrefused (Nat.not_le.mpr hcalls)
    | overflow => exact absurd hrefused (Nat.not_le.mpr hwidth)
    | invalidKey _ => exact absurd h.2 hrefused
    | invalidKeyType _ => exact absurd h.2 hrefused
    | unsupported _ => exact absurd h.2 hrefused
    | stack => exact hrefused.elim
    | assertion => exact hrefused.elim
    | beyond => exact hrefused.elim

/-- The room for strings plays no part in the conversion. -/
theorem convtable_stack (host : Host) (stack calls : Nat) :
    convtable { host with stack := stack } calls = convtable host calls := by
  induction calls with
  | zero => rfl
  | succ calls ih =>
    rw [convtable, convtable, ih]
    rfl

theorem lnewconf_returns {host : Host} {es : Entries} (h : Plain es) (hmem : ∀ n, (host.malloc n).isSome)
    (hwidth : max es.length (width es) < 2 ^ 31) {calls : Nat} (hcalls : depth es < calls) :
    ∃ room, ∀ stack, room ≤ stack → ∃ conf, lnewconf { host with stack := stack } calls es = .ok conf := by
  obtain ⟨r₀, h₀⟩ := malloc_ok hmem ⟨.init, 0⟩
  obtain ⟨r₁, h₁⟩ := malloc_ok hmem r₀.2
  obtain ⟨r, hr⟩ := convtable_ok h hmem hwidth hcalls r₁.2
  refine ⟨(r.2.stringmap.string_index + 3).toNat, fun stack hstack => ⟨⟨r.1, convert_stringmap r.2.stringmap⟩, ?_⟩⟩
  have hmalloc : malloc { host with stack := stack } = malloc host := rfl
  unfold lnewconf
  rw [hmalloc, convtable_stack, h₀]
  simp only [bind, Except.bind, h₁, hr]
  rw [if_neg (by omega)]

/-- For every table whose keys are strings and integers of 32 bits. -/
theorem lnewconf_faithful (host : Host) {es : Entries} (h : Plain es) :
    (∀ calls conf, lnewconf host calls es = .ok conf → Faithful conf.L conf.root es) ∧
    ((∀ n, (host.malloc n).isSome) → max es.length (width es) < 2 ^ 31 → ∀ calls, depth es < calls →
      ∃ room, ∀ stack, room ≤ stack → ∃ conf, lnewconf { host with stack := stack } calls es = .ok conf) := by
  refine ⟨fun calls conf hconf => ?_, fun hmem hwidth calls hcalls => lnewconf_returns h hmem hwidth hcalls⟩
  obtain ⟨m, hL, hmade⟩ := lnewconf_ok hconf
  rw [hL]
  exact hmade.faithful h (reads_convert m)

/-- A host whose tables end at the first index they do not have. -/
def sampleHost : Host where
  rawlen es := min ((List.range es.length).takeWhile fun i => !(rawgeti es (i + 1)).isNil).length 8
  rawlen_lt _ := Nat.lt_of_le_of_lt (Nat.min_le_right ..) (by decide)
  malloc _ := some fun _ => ⟨1, 0, 0, .string⟩
  stack := 100

/-- `{ "x", k = { [-5] = true } }` -/
def sampleTable : Entries :=
  [(.integer 1, .string [120]), (.string [107], .table [(.integer (-5), .boolean true)])]

theorem lnewconf_faithful_nested :
    (∀ conf, lnewconf sampleHost 3 sampleTable = .ok conf → Faithful conf.L conf.root sampleTable) ∧
    ∃ room, ∀ stack, room ≤ stack → ∃ conf, lnewconf { sampleHost with stack := stack } 3 sampleTable = .ok conf := by
  have hplain : Plain sampleTable := by
    exact ⟨List.pairwise_pair.mpr rfl, ⟨by decide, by decide⟩, trivial, trivial,
      ⟨List.pairwise_singleton _ _, ⟨by decide, by decide⟩, trivial, trivial⟩, trivial⟩
  obtain ⟨hfaithful, hreturns⟩ := lnewconf_faithful sampleHost hplain
  exact ⟨fun conf => hfaithful 3 conf, hreturns (fun _ => rfl) (by decide) 3 (by decide)⟩

end Sharedata
end Skynet
