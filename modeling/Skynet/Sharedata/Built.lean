import Skynet.Lua.Table
import Skynet.Sharedata.Fill

/-!
# Skynet.Sharedata.Built

What `convtable` makes of a table, whatever its keys are.

* `Built` : the structure is sound and has all keys of the table.
* `LuaTable` : the table has distinct keys and no nil, and so have the tables in it.
* `Refused` : the errors that the conversion of a table may end with. The assertion in `fillcolliding` and a slot
  outside of the hash part are not among them.
* `convtable_outcome` : a table is refused, or it is built.
-/

namespace Skynet
namespace Sharedata

open Lua

section Built

variable {host : Host} {conv : Conv} {A N : Nat} {es : Entries}

/-- What a table of the structure has, whatever the keys are. -/
structure Built (conv : Conv) (A : Nat) (es : Entries) (m : StringMap) (tbl : Table) : Prop where
  sound : Sound conv A tbl.sizehash es m tbl
  array : ∀ p ∈ es, ArrayFull A tbl.array (nameOf p.1)
  hash : ∀ p ∈ es, isHash A p = true →
    ∃ (i : Nat) (n : Node Table), tbl.hash[i]? = some n ∧ n.v.isNil = false ∧ n.name m = some (nameOf p.1)
  count : countsize A es = .ok tbl.sizehash

theorem Built.mono {m m' : StringMap} {tbl : Table} (hsub : m.Sub m') (h : Built conv A es m tbl) :
    Built conv A es m' tbl where
  sound := h.sound.mono hsub
  array := h.array
  hash p hp hhash := by
    obtain ⟨i, n, hi, hn, hname⟩ := h.hash p hp hhash
    exact ⟨i, n, hi, hn, named_mono hsub hname⟩
  count := h.count

/-- An integer that fits an `int` is kept. -/
theorem toInt_of_fits {d : BitVec 64} (hlow : -2 ^ 31 ≤ d.toInt) (hhigh : d.toInt < 2 ^ 31) : toInt d = d.toInt := by
  have hcond := BitVec.toInt_eq_toNat_cond d
  rw [toInt, BitVec.toInt_setWidth, Int.bmod_def]
  split <;> split at hcond <;> omega

theorem nameOf_index {i : Nat} (hi : i + 1 < 2 ^ 31) :
    nameOf (.integer (BitVec.ofNat 64 (i + 1))) = .integer (i + 1 : Nat) := by
  have hint : (BitVec.ofNat 64 (i + 1)).toInt = (i + 1 : Nat) := toInt_ofNat_of_lt (by omega)
  exact congrArg Name.integer ((toInt_of_fits (by omega) (by omega)).trans hint)

theorem eq_index {d : BitVec 64} (hpos : 0 < d.toInt) (hle : d.toInt ≤ A) :
    ∃ i, d = BitVec.ofNat 64 (i + 1) ∧ i < A := by
  have hnat : (d.toNat : Int) = d.toInt := by
    rw [BitVec.toInt_eq_toNat_cond] at *
    split <;> split at hpos <;> omega
  refine ⟨d.toNat - 1, ?_, by omega⟩
  rw [show d.toNat - 1 + 1 = d.toNat by omega, BitVec.ofNat_toNat, BitVec.setWidth_eq]

/-- A key that the code does not count is in the array part. -/
theorem countKey_outcome {E : Error → Prop} {k : Value} (hA : A < 2 ^ 31) (hE : ∀ e, countKey A k = .error e → E e) :
    Outcome (fun n => (if inArray A (nameOf k) then 0 else 1) ≤ n ∧ n ≤ 1 ∧
      (n = 0 → ∃ i, k = .integer (BitVec.ofNat 64 (i + 1)) ∧ i < A)) E (countKey A k) := by
  cases hk : countKey A k with
  | error e => exact hE e hk
  | ok n =>
    cases k with
    | integer d =>
      cases hk
      by_cases hin : 0 < d.toInt ∧ d.toInt ≤ A
      · obtain ⟨i, rfl, hi⟩ := eq_index hin.1 hin.2
        have harray : inArray A (nameOf (.integer (BitVec.ofNat 64 (i + 1)))) = true :=
          inArray_iff.mpr ⟨i, nameOf_index (by omega), hi⟩
        simp only [Outcome, hin, harray, and_self, if_true]
        exact ⟨Nat.le_refl _, Nat.zero_le _, fun _ => ⟨i, rfl, hi⟩⟩
      · simp only [Outcome, hin, if_false]
        exact ⟨by split <;> omega, Nat.le_refl _, fun h => by cases h⟩
    | string s => cases hk; simp [Outcome, nameOf, tointeger, inArray]
    | table es => cases hk; simp [Outcome, nameOf, tointeger, inArray]
    | nil => cases hk
    | boolean b => cases hk
    | number bits => cases hk
    | lightuserdata p => cases hk

theorem countsize_outcome {E : Error → Prop} (hA : A < 2 ^ 31) (hE : ∀ p ∈ es, ∀ e, countKey A p.1 = .error e → E e) :
    Outcome (fun n => es.countP (isHash A) ≤ n ∧ n ≤ es.length ∧
      (n = 0 → ∀ p ∈ es, ∃ i, p.1 = .integer (BitVec.ofNat 64 (i + 1)) ∧ i < A)) E (countsize A es) := by
  induction es with
  | nil => exact ⟨Nat.le_refl _, Nat.le_refl _, fun _ _ hp => by cases hp⟩
  | cons p es ih =>
    refine (countKey_outcome hA (hE p (List.mem_cons_self ..))).bind fun n ⟨hn, hone, hzero⟩ => ?_
    refine Outcome.bind (ih fun q hq => hE q (List.mem_cons_of_mem _ hq)) fun rest ⟨hrest, hlen, hzero'⟩ => ?_
    refine ⟨?_, by rw [List.length_cons]; omega, fun h q hq => ?_⟩
    · rw [List.countP_cons, isHash]
      cases hin : inArray A (nameOf p.1) <;> simp only [hin] at hn ⊢ <;> simp at hn ⊢ <;> omega
    · rcases List.mem_cons.mp hq with rfl | hq
      · exact hzero (by omega)
      · exact hzero' (by omega) q hq

/-! ### A table without other keys -/

theorem rawgeti_outcome {E : Error → Prop} (hE : Excuses host conv es E) (i : Nat) (ctx : Context) :
    Outcome (fun r => ctx.stringmap.Sub r.2.stringmap ∧ Agrees conv r.2.stringmap r.1 (rawgeti es i)) E
      (setvalue host conv (rawgeti es i) ctx) := by
  cases hnil : (rawgeti es i).isNil with
  | true =>
    rw [eq_nil_of_isNil hnil]
    exact ⟨.refl _, .nil⟩
  | false => exact setvalue_outcome hE (mem_of_rawget hnil) ctx

structure Filling (conv : Conv) (A : Nat) (es : Entries) (m₀ : StringMap) (done : List Nat) (st : Table × Context) :
    Prop where
  sub : m₀.Sub st.2.stringmap
  sizearray : st.1.array.length = A
  hash : st.1.hash = []
  value : ∀ i ∈ done, ∀ w, st.1.array[i]? = some w → Agrees conv st.2.stringmap w (rawgeti es (i + 1))

theorem fillarray_outcome {E : Error → Prop} (hE : Excuses host conv es E) (ctx : Context) :
    Outcome (Filling conv A es ctx.stringmap (List.range A)) E
      (fillarray host conv es (.mk (List.replicate A Val.nil) [], ctx)) := by
  unfold fillarray
  rw [Table.sizearray, Table.array_mk, List.length_replicate]
  refine Outcome.foldlM (Filling conv A es ctx.stringmap) ⟨.refl _, List.length_replicate, rfl, fun i hi => by cases hi⟩
    fun done i rest st _ h => ?_
  refine (rawgeti_outcome hE (i + 1) st.2).bind fun ⟨w, ctx'⟩ ⟨hsub, hw⟩ => ?_
  have hidx : ((i + 1 : Nat) - 1 : Int).toNat = i := by omega
  refine ⟨h.sub.trans hsub, ?_, h.hash, ?_⟩
  · rw [Table.array_mk, List.length_set, h.sizearray]
  · intro j hj w' hw'
    rw [Table.array_mk, hidx, List.getElem?_set] at hw'
    split at hw'
    · rename_i hij
      split at hw'
      · cases hw'
        rw [← hij]
        exact hw
      · cases hw'
    · rename_i hij
      rcases List.mem_append.mp hj with hj | hj
      · exact (h.value j hj w' hw').mono hsub
      · exact absurd (List.mem_singleton.mp hj).symm hij

theorem Filling.built {m₀ : StringMap} {st : Table × Context} (hA : A < 2 ^ 31) (hd : Distinct es)
    (hval : ∀ p ∈ es, p.2.isNil = false) (hcount : countsize A es = .ok 0)
    (hkeys : ∀ p ∈ es, ∃ i, p.1 = .integer (BitVec.ofNat 64 (i + 1)) ∧ i < A)
    (h : Filling conv A es m₀ (List.range A) st) : Built conv A es st.2.stringmap st.1 where
  sound :=
    { sizearray := h.sizearray
      sizehash := rfl
      array := by
        intro i w hi hw
        have hlt := (List.getElem?_eq_some_iff.mp hi).1
        rw [h.sizearray] at hlt
        have hagrees := h.value i (List.mem_range.mpr hlt) w hi
        have hmem := mem_of_rawget (hagrees.isNil_eq.symm.trans hw)
        exact ⟨_, hmem, nameOf_index (by omega), hagrees⟩
      node := by
        intro i n hi
        rw [h.hash] at hi
        cases hi
      reached := by
        intro i n hi
        rw [h.hash] at hi
        cases hi }
  array := by
    rintro ⟨k, v⟩ hp i hname hi
    obtain ⟨j, rfl, hj⟩ := hkeys _ hp
    simp only at hname
    rw [nameOf_index (by omega), Name.integer.injEq] at hname
    obtain rfl : j = i := by omega
    have hget := List.getElem?_eq_getElem (h.sizearray.symm ▸ hi : j < st.1.array.length)
    have hagrees := h.value j (List.mem_range.mpr hi) _ hget
    have hraw : rawgeti es (j + 1) = v := rawget_of_mem hd (sameKey_integer_self _) hp
    rw [hraw] at hagrees
    exact ⟨_, hget, hagrees.isNil_eq.trans (hval _ hp)⟩
  hash := by
    rintro ⟨k, v⟩ hp hhash
    obtain ⟨i, rfl, hi⟩ := hkeys _ hp
    rw [isHash_of_name (nameOf_index (by omega)) hi] at hhash
    cases hhash
  count := by
    rw [hcount, Table.sizehash, h.hash]
    rfl

/-! ### `convtable` -/

theorem First.start (junk : Nat → Junk) (ctx : Context) :
    First conv A N es ctx.stringmap [] (.mk (List.replicate A Val.nil) ((List.range N).map fun i => emptySlot (junk i)), ctx) := by
  have hnil : ∀ (i : Nat) n, ((List.range N).map fun i => emptySlot (junk i))[i]? = some n → n.v.isNil = true := by
    intro i n hi
    obtain ⟨j, -, rfl⟩ := List.mem_map.mp (List.mem_of_getElem? hi)
    rfl
  refine ⟨.refl _, ⟨List.length_replicate, by simp, ?_, ?_, ?_⟩, (fun _ hp => by cases hp), (fun _ hp => by cases hp), ?_⟩
  · intro i w hi hw
    rw [List.eq_of_mem_replicate (List.mem_of_getElem? hi)] at hw
    cases hw
  · intro i n hi hn
    rw [hnil i n hi] at hn
    cases hn
  · intro i n hi hn
    rw [hnil i n hi] at hn
    cases hn
  · have hused : used ((List.range N).map fun i => emptySlot (junk i)) = 0 := List.countP_eq_zero.mpr fun n hn => by
      obtain ⟨j, -, rfl⟩ := List.mem_map.mp hn
      exact Bool.false_ne_true
    simp [hused]

theorem Second.built {m₀ : StringMap} {st : Table × Context} (hcount : countsize A es = .ok N)
    (h : Second conv A N es m₀ es st) : Built conv A es st.2.stringmap st.1 := by
  have hsize : st.1.sizehash = N := h.sound.sizehash
  exact ⟨hsize ▸ h.sound, h.array, h.inserted, hsize ▸ hcount⟩

theorem mallocArray_outcome {E : Error → Prop} (hE : ∀ n, host.malloc n = none → E .memory) (sizearray : Nat)
    (ctx : Context) : Outcome (fun ctx' => ctx'.stringmap = ctx.stringmap) E (mallocArray host sizearray ctx) := by
  unfold mallocArray
  split
  · rfl
  · refine (malloc_outcome hE ctx).bind fun ⟨_, ctx₁⟩ h₁ => ?_
    exact (malloc_outcome hE ctx₁).bind fun ⟨_, ctx₂⟩ h₂ => h₂.trans h₁

/-- For any table, with any keys. -/
theorem convtableBody_outcome {E : Error → Prop} (hE : Excuses host conv es E) (hd : Distinct es)
    (hval : ∀ p ∈ es, p.2.isNil = false) (ctx : Context) :
    Outcome (fun r => ctx.stringmap.Sub r.2.stringmap ∧ Built conv (host.rawlen es) es r.2.stringmap r.1) E
      (convtableBody host conv es ctx) := by
  have hA := host.rawlen_lt es
  refine (mallocArray_outcome hE.memory _ ctx).bind fun ctx₁ h₁ => ?_
  refine (countsize_outcome hA fun p hp e he => hE.key p hp _ e he).bind_eq fun N hcount ⟨hle, hlen, hzero⟩ => ?_
  split
  · exact hE.overflow (by omega)
  split
  · rename_i hN
    subst hN
    refine (fillarray_outcome hE ctx₁).mono fun st hst => ?_
    rw [← h₁]
    exact ⟨hst.sub, hst.built hA hd hval hcount (hzero rfl)⟩
  · rename_i hN
    refine (malloc_outcome hE.memory ctx₁).bind fun ⟨junk, ctx₂⟩ h₂ => ?_
    simp only at h₂ ⊢
    have hmem : ∀ done p rest, es = done ++ p :: rest → p ∈ es := fun done p rest hes => by rw [hes]; simp
    have hfirst : Outcome (First conv (host.rawlen es) N es ctx₂.stringmap es) E (fillnocolliding host conv es _) :=
      Outcome.foldlM _ (.start junk ctx₂) fun done p rest st hes h =>
        nocolliding_outcome hE (hmem done p rest hes) (hval p (hmem done p rest hes)) (by omega) h
    refine hfirst.bind fun st hst => ?_
    have hsecond : Outcome (Second conv (host.rawlen es) N es ctx₂.stringmap es) E (fillcolliding host conv es st) :=
      Outcome.foldlM _ (hst.second hle) fun done p rest st hes h =>
        colliding_outcome hE hes (hval p (hmem done p rest hes)) h
    refine hsecond.mono fun st hst => ?_
    rw [← h₁, ← h₂]
    exact ⟨hst.sub, hst.built hcount⟩

end Built

/-! ### Tables in tables -/

mutual

def LuaValue : Value → Prop
  | .table es => Distinct es ∧ LuaPairs es
  | _ => True

def LuaPairs : List (Value × Value) → Prop
  | [] => True
  | (_, v) :: es => v.isNil = false ∧ LuaValue v ∧ LuaPairs es

end

/-- A table as Lua has it: distinct keys, and values that are not nil. -/
def LuaTable (es : Entries) : Prop := Distinct es ∧ LuaPairs es

mutual

def depthOf : Value → Nat
  | .table es => depth es + 1
  | _ => 0

/-- How deep tables are nested in a table. -/
def depth : List (Value × Value) → Nat
  | [] => 0
  | (_, v) :: es => max (depthOf v) (depth es)

end

mutual

def widthOf : Value → Nat
  | .table es => max es.length (width es)
  | _ => 0

/-- The most pairs that a table in a table has. -/
def width : List (Value × Value) → Nat
  | [] => 0
  | (_, v) :: es => max (widthOf v) (width es)

end

/-- The keys that fit an `int`, and strings. -/
def PlainKey : Value → Prop
  | .integer d => -2 ^ 31 ≤ d.toInt ∧ d.toInt < 2 ^ 31
  | .string _ => True
  | _ => False

mutual

/-- A number, string, boolean or table of such values. -/
def PlainValue : Value → Prop
  | .nil => False
  | .lightuserdata _ => False
  | .table es => Distinct es ∧ PlainPairs es
  | _ => True

def PlainPairs : List (Value × Value) → Prop
  | [] => True
  | (k, v) :: es => PlainKey k ∧ PlainValue v ∧ PlainPairs es

end

def Plain (es : Entries) : Prop := Distinct es ∧ PlainPairs es

theorem LuaPairs.mem {es : Entries} (h : LuaPairs es) {p : Value × Value} (hp : p ∈ es) :
    p.2.isNil = false ∧ LuaValue p.2 := by
  induction es with
  | nil => cases hp
  | cons q es ih =>
    obtain ⟨hval, hlua, hes⟩ := h
    rcases List.mem_cons.mp hp with rfl | hp
    · exact ⟨hval, hlua⟩
    · exact ih hes hp

theorem PlainPairs.mem {es : Entries} (h : PlainPairs es) {p : Value × Value} (hp : p ∈ es) :
    PlainKey p.1 ∧ PlainValue p.2 := by
  induction es with
  | nil => cases hp
  | cons q es ih =>
    obtain ⟨hkey, hval, hes⟩ := h
    rcases List.mem_cons.mp hp with rfl | hp
    · exact ⟨hkey, hval⟩
    · exact ih hes hp

mutual

theorem PlainValue.lua {v : Value} (h : PlainValue v) : LuaValue v := by
  cases v with
  | table es => exact ⟨h.1, PlainPairs.lua h.2⟩
  | _ => trivial

theorem PlainPairs.lua {es : List (Value × Value)} (h : PlainPairs es) : LuaPairs es := by
  cases es with
  | nil => trivial
  | cons p es =>
    obtain ⟨hkey, hval, hes⟩ := h
    refine ⟨?_, PlainValue.lua hval, PlainPairs.lua hes⟩
    cases hv : p.2 with
    | nil => rw [hv] at hval; exact hval.elim
    | _ => rfl

end

theorem Plain.lua {es : Entries} (h : Plain es) : LuaTable es := ⟨h.1, h.2.lua⟩

theorem depth_lt {es sub : Entries} {p : Value × Value} (hp : p ∈ es) (hv : p.2 = .table sub) : depth sub < depth es := by
  induction es with
  | nil => cases hp
  | cons q es ih =>
    rw [depth]
    rcases List.mem_cons.mp hp with rfl | hp
    · rw [hv, depthOf]
      omega
    · have := ih hp
      omega

theorem width_le {es sub : Entries} {p : Value × Value} (hp : p ∈ es) (hv : p.2 = .table sub) :
    max sub.length (width sub) ≤ width es := by
  induction es with
  | nil => cases hp
  | cons q es ih =>
    rw [width]
    rcases List.mem_cons.mp hp with rfl | hp
    · rw [hv, widthOf]
      omega
    · have := ih hp
      omega

def Refused (host : Host) (calls : Nat) (es : Entries) : Error → Prop
  | .memory => ∃ n, host.malloc n = none
  | .cStack => calls ≤ depth es
  | .overflow => 2 ^ 31 ≤ max es.length (width es)
  | .invalidKey _ => ¬PlainPairs es
  | .invalidKeyType _ => ¬PlainPairs es
  | .unsupported _ => ¬PlainPairs es
  | .stack => False
  | .assertion => False
  | .beyond => False

theorem Refused.lift {host : Host} {calls : Nat} {es sub : Entries} {p : Value × Value} (hp : p ∈ es)
    (hv : p.2 = .table sub) {e : Error} (h : Refused host calls sub e) : Refused host (calls + 1) es e := by
  have hplain : PlainPairs es → PlainPairs sub := by
    intro hes
    have hval := (hes.mem hp).2
    rw [hv] at hval
    exact hval.2
  cases e with
  | memory => exact h
  | cStack => exact Nat.lt_of_le_of_lt h (depth_lt hp hv)
  | overflow => exact h.trans ((width_le hp hv).trans (Nat.le_max_right ..))
  | invalidKey _ => exact fun hes => h (hplain hes)
  | invalidKeyType _ => exact fun hes => h (hplain hes)
  | unsupported _ => exact fun hes => h (hplain hes)
  | stack => exact h
  | assertion => exact h
  | beyond => exact h

theorem countKey_refused {host : Host} {calls : Nat} {es : Entries} {p : Value × Value} (hp : p ∈ es) {sizearray : Nat}
    {e : Error} (h : countKey sizearray p.1 = .error e) : Refused host calls es e := by
  have hnot : ¬PlainKey p.1 → ¬PlainPairs es := fun hkey hes => hkey (hes.mem hp).1
  cases hk : p.1 with
  | integer d => rw [hk] at h; cases h
  | string s => rw [hk] at h; cases h
  | table sub => rw [hk] at h; cases h
  | nil => rw [hk] at h hnot; cases h; exact hnot id
  | boolean b => rw [hk] at h hnot; cases h; exact hnot id
  | number bits => rw [hk] at h hnot; cases h; exact hnot id
  | lightuserdata d => rw [hk] at h hnot; cases h; exact hnot id

theorem convtable_outcome (host : Host) {calls : Nat} {es : Entries} (h : LuaTable es) (ctx : Context) :
    Outcome (fun r => ctx.stringmap.Sub r.2.stringmap ∧
      ∃ n, calls = n + 1 ∧ Built (convtable host n) (host.rawlen es) es r.2.stringmap r.1)
      (Refused host calls es) (convtable host calls es ctx) := by
  induction calls generalizing es ctx with
  | zero => exact Nat.zero_le _
  | succ calls ih =>
    have hE : Excuses host (convtable host calls) es (Refused host (calls + 1) es) :=
      { memory := fun n hn => ⟨n, hn⟩
        overflow := fun hlen => Nat.le_trans hlen (Nat.le_max_left ..)
        key := fun p hp _ e he => countKey_refused hp he
        value := fun p hp d hd hes => by
          have hval := (hes.mem hp).2
          rw [hd] at hval
          exact hval
        table := fun p hp sub ctx hv => by
          have hlua := (h.2.mem hp).2
          rw [hv] at hlua
          exact (ih hlua ctx).imp (fun _ hr => hr.1) fun e he => he.lift hp hv }
    exact (convtableBody_outcome hE h.1 (fun p hp => (h.2.mem hp).1) ctx).mono fun r hr => ⟨hr.1, calls, rfl, hr.2⟩

end Sharedata
end Skynet
