import Skynet.Sharedata.Faithful

/-!
# Skynet.Sharedata.Confused

When the keys of a table are kept apart. `countsize` takes integers of 64 bits and tables for keys; `ishashkey`,
`setarray` and `lindexconf` cut an integer to an `int` and read a table as the empty string.

* `Unconfused` : two keys do not become one, a key is answered with its own value only, and an element of the array
  part has the value of its index.
* `Separate` : the keys that this depends on are apart.
* `unconfused_iff` : the one holds if and only if the other does.
-/

namespace Skynet
namespace Sharedata

open Lua

/-- `ishashkey` makes the same key of two keys, one after the other. -/
def SameKey (sizearray : Nat) (k k' : Value) : Prop :=
  ∃ m, (ishashkey sizearray k m).1 = (ishashkey sizearray k' (ishashkey sizearray k m).2).1

/-- The table of the structure was made of the table. -/
def Inside (host : Host) (conf : Conf) (tbl : Table) (es : Entries) : Prop :=
  ∃ calls m, conf.L = convert_stringmap m ∧ Made (convtable host calls) m tbl es

/-- The answer is the value, or a table of the structure that was made of it. -/
def Answers (host : Host) (conf : Conf) (v : Value) (a : Answer) : Prop :=
  match v with
  | .table es => ∃ tbl, a = .table tbl ∧ Inside host conf tbl es
  | v => a = .value v

structure Unconfused (host : Host) (conf : Conf) (tbl : Table) (es : Entries) (q : Value) : Prop where
  keys : es.Pairwise fun p p' => ¬SameKey tbl.sizearray p.1 p'.1
  index : ∀ a, lindexconf conf.L tbl q = .ok (some a) → a ≠ .value .nil → ∃ v, (q, v) ∈ es ∧ Answers host conf v a
  array : ∀ (i : Nat) w, tbl.array[i]? = some w → w.isNil = false →
    ∃ v, (.integer (BitVec.ofNat 64 (i + 1)), v) ∈ es ∧ Answers host conf v (pushvalue conf.L w)

/-- A table, or the empty string. -/
def Unnamed : Value → Prop
  | .table _ => True
  | .string s => s = []
  | _ => False

structure Separate (sizearray : Nat) (es : Entries) (q : Value) : Prop where
  /-- No two integers are equal as an `int`. -/
  integers : ∀ d d' v v', (.integer d, v) ∈ es → (.integer d', v') ∈ es → toInt d = toInt d' → d = d'
  /-- No other integer is an index of the array part as an `int`. -/
  array : ∀ d v, (.integer d, v) ∈ es → 0 < toInt d → toInt d ≤ sizearray → d.toInt = toInt d
  unnamed : es.Pairwise fun p p' => ¬(Unnamed p.1 ∧ Unnamed p'.1)
  integer_query : ∀ e d v, q = .integer e → (.integer d, v) ∈ es → toInt d = toInt e → d = e
  string_query : q = .string [] → ∀ sub v, (.table sub, v) ∉ es

section Confused

variable {host : Host} {conf : Conf} {A : Nat} {m : StringMap} {tbl : Table} {es : Entries} {q : Value}

theorem sameKey_iff {k k' : Value} : SameKey A k k' ↔ nameOf k = nameOf k' := by
  constructor
  · rintro ⟨m, h⟩
    obtain ⟨-, hk⟩ := ishashkey_cases A k m
    obtain ⟨hsub, hk'⟩ := ishashkey_cases A k' (ishashkey A k m).2
    rcases hk with ⟨i, hi, hname, -⟩ | ⟨key, kt, hi, -, hname⟩
    · rcases hk' with ⟨i', hi', hname', -⟩ | ⟨key', kt', hi', -, -⟩
      · rw [hi, hi', Place.array.injEq] at h
        rw [hname, hname', h]
      · rw [hi, hi'] at h
        cases h
    · rcases hk' with ⟨i', hi', -, -⟩ | ⟨key', kt', hi', -, hname'⟩
      · rw [hi, hi'] at h
        cases h
      · rw [hi, hi', Place.hash.injEq] at h
        obtain ⟨rfl, -, rfl⟩ := h
        exact Option.some.inj ((named_mono hsub hname).symm.trans hname')
  · intro h
    refine ⟨.init, ?_⟩
    obtain ⟨-, hk⟩ := ishashkey_cases A k .init
    obtain ⟨hsub, hk'⟩ := ishashkey_cases A k' (ishashkey A k .init).2
    rcases hk with ⟨i, hi, hname, hlt⟩ | ⟨key, kt, hi, hin, hname⟩
    · rcases hk' with ⟨i', hi', hname', -⟩ | ⟨key', kt', -, hin', -⟩
      · rw [hname, hname', Name.integer.injEq] at h
        rw [hi, hi', h]
      · rw [← h, hname, inArray_iff.mpr ⟨i, rfl, hlt⟩] at hin'
        cases hin'
    · rcases hk' with ⟨i', -, hname', hlt⟩ | ⟨key', kt', hi', -, hname'⟩
      · rw [h, hname', inArray_iff.mpr ⟨i', rfl, hlt⟩] at hin
        cases hin
      · rw [← h] at hname'
        obtain ⟨rfl, rfl⟩ := named_inj (named_mono hsub hname) hname'
        rw [hi, hi', h]

theorem Agrees.answers {calls : Nat} (hL : conf.L = convert_stringmap m) {w : Val Table} {v : Value}
    (h : Agrees (convtable host calls) m w v) : Answers host conf v (pushvalue conf.L w) := by
  cases h with
  | nil => rfl
  | real bits => rfl
  | integer d => rfl
  | string hs =>
    rw [pushvalue, hL, reads_convert m _ hs]
    rfl
  | boolean b => rfl
  | table ht => exact ⟨_, rfl, calls, m, hL, ht⟩

theorem pushvalue_ne_nil {L : Int → Option Bytes} {w : Val Table} (h : w.isNil = false) : pushvalue L w ≠ .value .nil := by
  intro he
  cases w with
  | nil => cases h
  | _ => cases he

/-- The keys that `countsize` lets through. -/
theorem countsize_key (h : ∃ n, countsize A es = .ok n) {p : Value × Value} (hp : p ∈ es) :
    (∃ d, p.1 = .integer d) ∨ (∃ s, p.1 = .string s) ∨ ∃ sub, p.1 = .table sub := by
  induction es with
  | nil => cases hp
  | cons r es ih =>
    obtain ⟨n, hn⟩ := h
    rw [countsize] at hn
    cases hkey : countKey A r.1 with
    | error e => rw [hkey] at hn; cases hn
    | ok a =>
      cases hrest : countsize A es with
      | error e => rw [hkey, hrest] at hn; cases hn
      | ok b =>
        rcases List.mem_cons.mp hp with rfl | hp
        · cases hk : p.1 with
          | integer d => exact .inl ⟨d, rfl⟩
          | string s => exact .inr (.inl ⟨s, rfl⟩)
          | table sub => exact .inr (.inr ⟨sub, rfl⟩)
          | _ => rw [hk] at hkey; cases hkey
        · exact ih ⟨b, hrest⟩ hp

theorem Unnamed.name {k : Value} (h : Unnamed k) : nameOf k = .string [] := by
  cases k with
  | table sub => rfl
  | string s => rw [nameOf_string, show s = [] from h]
  | _ => exact h.elim

theorem eq_index_of_toInt {d : BitVec 64} {i : Nat} (h : d.toInt = (i + 1 : Nat)) (hi : i + 1 < 2 ^ 31) :
    d = BitVec.ofNat 64 (i + 1) :=
  BitVec.toInt_inj.mp (h.trans (toInt_ofNat_of_lt (by omega)).symm)

theorem Separate.keys (h : Separate A es q) (hd : Distinct es) (hcount : ∃ n, countsize A es = .ok n) :
    es.Pairwise fun p p' => ¬SameKey A p.1 p'.1 := by
  refine (hd.and h.unnamed).imp_of_mem ?_
  rintro ⟨k, v⟩ ⟨k', v'⟩ hp hp' ⟨hne, hunnamed⟩ hsame
  rw [sameKey_iff] at hsame
  rcases countsize_key hcount hp with ⟨d, rfl⟩ | ⟨s, rfl⟩ | ⟨sub, rfl⟩ <;>
    rcases countsize_key hcount hp' with ⟨d', rfl⟩ | ⟨s', rfl⟩ | ⟨sub', rfl⟩
  · rw [h.integers d d' v v' hp hp' (Name.integer.inj hsame), Value.sameKey, beq_self_eq_true] at hne
    cases hne
  · cases hsame
  · cases hsame
  · cases hsame
  · obtain rfl : s = s' := Name.string.inj hsame
    rw [Value.sameKey, beq_self_eq_true] at hne
    cases hne
  · obtain rfl : s = [] := Name.string.inj hsame
    exact hunnamed ⟨rfl, trivial⟩
  · cases hsame
  · obtain rfl : [] = s' := Name.string.inj hsame
    exact hunnamed ⟨trivial, rfl⟩
  · exact hunnamed ⟨trivial, trivial⟩

/-- A pair whose key is the same in the structure has the key that was asked for. -/
theorem Separate.mem (h : Separate A es q) (hcount : ∃ n, countsize A es = .ok n) (hq : IsKey q) {p : Value × Value}
    (hp : p ∈ es) (hname : nameOf p.1 = nameOf q) : (q, p.2) ∈ es := by
  obtain ⟨k, v⟩ := p
  cases q with
  | integer e =>
    rcases countsize_key hcount hp with ⟨d, rfl⟩ | ⟨s, rfl⟩ | ⟨sub, rfl⟩
    · rwa [h.integer_query e d v rfl hp (Name.integer.inj hname)] at hp
    · cases hname
    · cases hname
  | string s =>
    rcases countsize_key hcount hp with ⟨d, rfl⟩ | ⟨s', rfl⟩ | ⟨sub, rfl⟩
    · cases hname
    · obtain rfl : s' = s := Name.string.inj hname
      exact hp
    · obtain rfl : [] = s := Name.string.inj hname
      exact absurd hp (h.string_query rfl sub v)
  | _ => exact hq.elim

theorem Separate.mem_array (h : Separate A es q) (hcount : ∃ n, countsize A es = .ok n) (hA : A < 2 ^ 31)
    {p : Value × Value} (hp : p ∈ es) {i : Nat} (hi : i < A) (hname : nameOf p.1 = .integer (i + 1 : Nat)) :
    (.integer (BitVec.ofNat 64 (i + 1)), p.2) ∈ es := by
  obtain ⟨k, v⟩ := p
  rcases countsize_key hcount hp with ⟨d, rfl⟩ | ⟨s, rfl⟩ | ⟨sub, rfl⟩
  · have hint : toInt d = (i + 1 : Nat) := Name.integer.inj hname
    have hd := h.array d v hp (by omega) (by omega)
    rwa [eq_index_of_toInt (hd.trans hint) (by omega)] at hp
  · cases hname
  · cases hname

theorem Built.unconfused {calls : Nat} (hb : Built (convtable host calls) A es m tbl) (hL : conf.L = convert_stringmap m)
    (hd : Distinct es) (hA : A < 2 ^ 31) (h : Separate A es q) : Unconfused host conf tbl es q := by
  have hsize : tbl.sizearray = A := hb.sound.sizearray
  have hread : Reads conf.L m := hL ▸ reads_convert m
  have hcount : ∃ n, countsize A es = .ok n := ⟨_, hb.count⟩
  refine ⟨hsize ▸ h.keys hd hcount, fun a ha hnil => ?_, fun i w hi hw => ?_⟩
  · obtain ⟨w, rfl, hfrom⟩ := lindexconf_found hb hread ha
    have hval : w.isNil = false := by
      cases w with
      | nil => exact absurd rfl hnil
      | _ => rfl
    have hq : IsKey q := by
      cases q <;> first | exact True.intro | cases ha
    obtain ⟨-, p, hp, hname, hv⟩ := hfrom hval
    exact ⟨p.2, h.mem hcount hq hp hname, hv.answers hL⟩
  · have hlt := (List.getElem?_eq_some_iff.mp hi).1
    rw [hb.sound.sizearray] at hlt
    obtain ⟨p, hp, hname, hv⟩ := hb.sound.array i w hi hw
    exact ⟨p.2, h.mem_array hcount hA hp hlt hname, hv.answers hL⟩

theorem Built.separate {calls : Nat} (hb : Built (convtable host calls) A es m tbl) (hL : conf.L = convert_stringmap m)
    (hA : A < 2 ^ 31) (h : Unconfused host conf tbl es q) : Separate A es q := by
  have hsize : tbl.sizearray = A := hb.sound.sizearray
  have hread : Reads conf.L m := hL ▸ reads_convert m
  have hinj : ∀ p ∈ es, ∀ p' ∈ es, nameOf p.1 = nameOf p'.1 → p = p' := by
    intro p hp p' hp' hname
    refine List.inj_on_of_nodup_map (f := fun p : Value × Value => nameOf p.1) ?_ hp hp' hname
    exact List.pairwise_map.mpr (h.keys.imp fun hne he => hne (sameKey_iff.mpr he))
  refine ⟨?_, ?_, ?_, ?_, ?_⟩
  · intro d d' v v' hp hp' hint
    exact Value.integer.inj (congrArg Prod.fst (hinj _ hp _ hp' (congrArg Name.integer hint)))
  · intro d v hp hpos hle
    obtain ⟨i, hi, hlt⟩ := inArray_iff.mp (show inArray A (nameOf (.integer d)) = true from decide_eq_true ⟨hpos, hle⟩)
    obtain ⟨w, hw, hval⟩ := hb.array _ hp i hi hlt
    obtain ⟨v', hp', -⟩ := h.array i w hw hval
    have heq := Value.integer.inj (congrArg Prod.fst (hinj _ hp _ hp' (hi.trans (nameOf_index (by omega)).symm)))
    have hint : toInt d = (i + 1 : Nat) := Name.integer.inj hi
    rw [heq, toInt_ofNat_of_lt (by omega), ← heq, hint]
  · refine h.keys.imp fun hne hboth => hne (sameKey_iff.mpr ?_)
    rw [hboth.1.name, hboth.2.name]
  · rintro e d v rfl hp hint
    obtain ⟨w, hw, hval, -⟩ := lindexconf_present hb hread (q := .integer e) trivial hp (congrArg Name.integer hint)
    obtain ⟨v', hp', -⟩ := h.index _ hw (pushvalue_ne_nil hval)
    exact Value.integer.inj (congrArg Prod.fst (hinj _ hp _ hp' (congrArg Name.integer hint)))
  · rintro rfl sub v hp
    obtain ⟨w, hw, hval, -⟩ := lindexconf_present hb hread (q := .string []) trivial hp rfl
    obtain ⟨v', hp', -⟩ := h.index _ hw (pushvalue_ne_nil hval)
    cases hinj _ hp _ hp' rfl

end Confused

theorem unconfused_iff {host : Host} {conf : Conf} {tbl : Table} {es : Entries} (h : LuaTable es)
    (hin : Inside host conf tbl es) (q : Value) : Unconfused host conf tbl es q ↔ Separate tbl.sizearray es q := by
  obtain ⟨calls, m, hL, ctx, ctx', hconv, hsub⟩ := hin
  obtain ⟨-, n, rfl, hb⟩ := (convtable_outcome host h ctx).of_ok hconv
  have hb' := hb.mono hsub
  have hA := host.rawlen_lt es
  rw [show tbl.sizearray = host.rawlen es from hb.sound.sizearray]
  exact ⟨fun hun => hb'.separate hL hA hun, fun hsep => hb'.unconfused hL h.1 hA hsep⟩

/-- For every table that is taken over, the tables in it and every key. -/
theorem lnewconf_unconfused_iff (host : Host) {calls : Nat} {es : Entries} {conf : Conf}
    (hconf : lnewconf host calls es = .ok conf) :
    Inside host conf conf.root es ∧
    ∀ tbl sub q, LuaTable sub → Inside host conf tbl sub →
      (Unconfused host conf tbl sub q ↔ Separate tbl.sizearray sub q) := by
  obtain ⟨m, hL, hmade⟩ := lnewconf_ok hconf
  exact ⟨⟨calls, m, hL, hmade⟩, fun tbl sub q hsub hin => unconfused_iff hsub hin q⟩

theorem lnewconf_unconfused_sample : ∃ conf, lnewconf sampleHost 3 sampleTable = .ok conf ∧
    Unconfused sampleHost conf conf.root sampleTable (.integer 1) := by
  obtain ⟨conf, hconf⟩ : ∃ conf, lnewconf sampleHost 3 sampleTable = .ok conf := ⟨_, rfl⟩
  obtain ⟨hroot, hiff⟩ := lnewconf_unconfused_iff sampleHost hconf
  have hlua : LuaTable sampleTable :=
    ⟨List.pairwise_pair.mpr rfl, rfl, trivial, rfl, ⟨List.pairwise_singleton _ _, rfl, trivial, trivial⟩, trivial⟩
  have hone : ∀ d v, (.integer d, v) ∈ sampleTable → d = 1 := by
    intro d v hp
    simp only [sampleTable, List.mem_cons, Prod.mk.injEq, Value.integer.injEq, List.not_mem_nil, or_false, reduceCtorEq,
      false_and] at hp
    exact hp.1
  refine ⟨conf, hconf, (hiff _ _ _ hlua hroot).mpr ⟨?_, ?_, List.pairwise_pair.mpr fun h => h.1, ?_, fun h => by cases h⟩⟩
  · exact fun d d' v v' hp hp' _ => (hone d v hp).trans (hone d' v' hp').symm
  · intro d v hp _ _
    rw [hone d v hp]
    decide
  · intro e d v he hp _
    rw [hone d v hp, ← Value.integer.inj he]

/-- `{ [{}] = 1 }` -/
def tableKey : Entries := [(.table [], .integer 1)]

/-- `{ 10, [2 ^ 32 + 1] = 20 }` -/
def longKey : Entries := [(.integer 1, .integer 10), (.integer 0x100000001, .integer 20)]

theorem keys_confused :
    (∃ conf, lnewconf sampleHost 3 tableKey = .ok conf ∧ ¬Unconfused sampleHost conf conf.root tableKey (.string [])) ∧
    ∃ conf, lnewconf sampleHost 3 longKey = .ok conf ∧ ¬Unconfused sampleHost conf conf.root longKey (.integer 1) := by
  constructor
  · refine ⟨_, rfl, fun h => ?_⟩
    obtain ⟨v, hv, -⟩ := h.index (.value (.integer 1)) rfl (by simp)
    simp [tableKey] at hv
  · refine ⟨_, rfl, fun h => ?_⟩
    obtain ⟨v, hv, hanswer⟩ := h.index (.value (.integer 20)) rfl (by simp)
    simp [longKey] at hv
    subst hv
    simp [Answers] at hanswer

end Sharedata
end Skynet
