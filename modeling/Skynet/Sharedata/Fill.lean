import Skynet.Sharedata.Name

/-!
# Skynet.Sharedata.Fill

The two passes that put the pairs of a table into slots, whatever its keys are.

* `Sound` : each value in the structure comes from a pair of the table, and each used slot is on the chain of its
  main position. `Sound.place` and `Sound.insert` are the ways a slot is filled.
* `First` and `Second` : the invariants of the loops of `fillnocolliding` and `fillcolliding`. The count in
  them is why `assert(n)` holds.
* `nocolliding_outcome`, `colliding_outcome` : the loop bodies keep them, or an error is excused.
-/

namespace Skynet
namespace Sharedata

open Lua

/-! ### What is there -/

structure NodeOk (conv : Conv) (A : Nat) (es : Entries) (m : StringMap) (n : Node Table) : Prop where
  source : ∃ p ∈ es, inArray A (nameOf p.1) = false ∧ n.name m = some (nameOf p.1) ∧ n.keyhash = hashOf (nameOf p.1) ∧
    Agrees conv m n.v p.2
  last : n.nocolliding = true → n.next < 0

structure Sound (conv : Conv) (A N : Nat) (es : Entries) (m : StringMap) (tbl : Table) : Prop where
  sizearray : tbl.array.length = A
  sizehash : tbl.hash.length = N
  array : ∀ (i : Nat) w, tbl.array[i]? = some w → w.isNil = false →
    ∃ p ∈ es, nameOf p.1 = .integer (i + 1 : Nat) ∧ Agrees conv m w p.2
  node : ∀ (i : Nat) n, tbl.hash[i]? = some n → n.v.isNil = false → NodeOk conv A es m n
  reached : ∀ (i : Nat) n, tbl.hash[i]? = some n → n.v.isNil = false → Reaches (slotOf tbl.hash) (mainpos n.keyhash N) i

section Fill

variable {host : Host} {conv : Conv} {A N : Nat} {es : Entries} {m m' : StringMap} {tbl : Table}

theorem NodeOk.mono (hsub : m.Sub m') {n : Node Table} (h : NodeOk conv A es m n) : NodeOk conv A es m' n := by
  obtain ⟨p, hp, hin, hname, hhash, hv⟩ := h.source
  exact ⟨⟨p, hp, hin, named_mono hsub hname, hhash, hv.mono hsub⟩, h.last⟩

theorem Sound.mono (hsub : m.Sub m') (h : Sound conv A N es m tbl) : Sound conv A N es m' tbl where
  sizearray := h.sizearray
  sizehash := h.sizehash
  array i w hi hw := by
    obtain ⟨p, hp, hname, hv⟩ := h.array i w hi hw
    exact ⟨p, hp, hname, hv.mono hsub⟩
  node i n hi hn := (h.node i n hi hn).mono hsub
  reached := h.reached

theorem Sound.named (h : Sound conv A N es m tbl) {i : Nat} {n : Node Table} (hi : tbl.hash[i]? = some n)
    (hn : n.v.isNil = false) : ∃ a, n.name m = some a := by
  obtain ⟨p, -, -, hname, -⟩ := (h.node i n hi hn).source
  exact ⟨_, hname⟩

theorem Sound.setarray (h : Sound conv A N es m tbl) {p : Value × Value} (hp : p ∈ es) {i : Nat}
    (hname : nameOf p.1 = .integer (i + 1 : Nat)) {w : Val Table} (hw : Agrees conv m w p.2) :
    Sound conv A N es m (.mk (tbl.array.set i w) tbl.hash) where
  sizearray := by rw [Table.array_mk, List.length_set, h.sizearray]
  sizehash := h.sizehash
  array j w' hj hw' := by
    rw [Table.array_mk, List.getElem?_set] at hj
    split at hj
    · rename_i hij
      split at hj
      · cases hj
        rw [← hij]
        exact ⟨p, hp, hname, hw⟩
      · cases hj
    · exact h.array j w' hj hw'
  node := h.node
  reached := h.reached

/-- The main position is taken. -/
theorem Sound.place (h : Sound conv A N es m tbl) {p : Value × Value} (hp : p ∈ es)
    (hin : inArray A (nameOf p.1) = false) {n : Node Table} {w : Val Table} {key : Int} {kt : KeyType}
    (hpos : tbl.hash[mainpos (hashOf (nameOf p.1)) N]? = some n) (hnil : n.v.isNil = true)
    (hkey : Sharedata.named m kt key = some (nameOf p.1)) (hw : Agrees conv m w p.2) (hval : w.isNil = false) :
    Sound conv A N es m (.mk tbl.array
      (tbl.hash.set (mainpos (hashOf (nameOf p.1)) N) ⟨w, key, -1, hashOf (nameOf p.1), kt, true⟩)) := by
  have hfree := slotOf_free hpos hnil
  have hlt := (List.getElem?_eq_some_iff.mp hpos).1
  generalize hq : mainpos (hashOf (nameOf p.1)) N = q at *
  have hget : ∀ j : Nat, (tbl.hash.set q ⟨w, key, -1, hashOf (nameOf p.1), kt, true⟩)[j]? =
      if q = j then some ⟨w, key, -1, hashOf (nameOf p.1), kt, true⟩ else tbl.hash[j]? := by
    intro j
    simp [List.getElem?_set, hlt]
  have hlen : (tbl.hash.set q ⟨w, key, -1, hashOf (nameOf p.1), kt, true⟩).length = N := by
    rw [List.length_set, h.sizehash]
  generalize tbl.hash.set q ⟨w, key, -1, hashOf (nameOf p.1), kt, true⟩ = hash' at *
  have hslot : ∀ i o, slotOf tbl.hash i = some o → slotOf hash' i = some o := by
    intro i o hi
    have hne : q ≠ i := by
      rintro rfl
      rw [hfree] at hi
      cases hi
    rwa [slotOf, hget, if_neg hne, ← slotOf]
  have hnew : slotOf hash' q = some none := slotOf_used ((hget q).trans (if_pos rfl)) hval
  refine ⟨h.sizearray, hlen, h.array, ?_, ?_⟩
  · intro i n' hi hn'
    rw [Table.hash_mk, hget] at hi
    split at hi
    · cases hi
      exact ⟨⟨p, hp, hin, hkey, rfl, hw⟩, fun _ => Int.negSucc_lt_zero 0⟩
    · exact h.node i n' hi hn'
  · intro i n' hi hn'
    rw [Table.hash_mk, hget] at hi
    split at hi
    · rename_i hqi
      cases hi
      rw [Table.hash_mk, hq, ← hqi]
      exact .last hnew
    · exact (h.reached i n' hi hn').imp hslot

/-- What `linkNode` and the value make of the slots. -/
theorem linkNode_get {hash : List (Node Table)} {pos i : Nat} {main n : Node Table} (hpos : hash[pos]? = some main)
    (hi : hash[i]? = some n) (hne : i ≠ pos) (key : Int) (keyhash : UInt32) (kt : KeyType) (w : Val Table) (j : Nat) :
    ((linkNode hash pos main i key keyhash kt).modify i fun n => { n with v := w })[j]? =
      if i = j then some ⟨w, key, main.next, keyhash, kt, false⟩
      else if pos = j then some { main with next := i, nocolliding := false } else hash[j]? := by
  simp only [linkNode, List.getElem?_modify]
  split
  · rename_i hij
    subst hij
    simp only [if_neg (Ne.symm hne), hi]
    rfl
  · split
    · rename_i hpj
      subst hpj
      rw [hpos]
      rfl
    · cases hash[j]? <;> rfl

/-- A free slot goes behind the main position. -/
theorem Sound.insert (h : Sound conv A N es m tbl) {p : Value × Value} (hp : p ∈ es)
    (hin : inArray A (nameOf p.1) = false) {main n : Node Table} {w : Val Table} {key : Int} {kt : KeyType} {i : Nat}
    (hpos : tbl.hash[mainpos (hashOf (nameOf p.1)) N]? = some main) (hmain : main.v.isNil = false)
    (hi : tbl.hash[i]? = some n) (hnil : n.v.isNil = true)
    (hkey : Sharedata.named m kt key = some (nameOf p.1)) (hw : Agrees conv m w p.2) (hval : w.isNil = false) :
    Sound conv A N es m (.mk tbl.array ((linkNode tbl.hash (mainpos (hashOf (nameOf p.1)) N) main i key
      (hashOf (nameOf p.1)) kt).modify i fun n => { n with v := w })) := by
  have hfree := slotOf_free hi hnil
  have hused := slotOf_used hpos hmain
  have hne : i ≠ mainpos (hashOf (nameOf p.1)) N := by
    intro he
    rw [← he, hi] at hpos
    cases hpos
    rw [hnil] at hmain
    cases hmain
  have hreach := h.reached _ main hpos hmain
  have hmainok := h.node _ main hpos hmain
  have hget := linkNode_get hpos hi hne key (hashOf (nameOf p.1)) kt w
  have hlen : ((linkNode tbl.hash (mainpos (hashOf (nameOf p.1)) N) main i key (hashOf (nameOf p.1)) kt).modify i
      fun n => { n with v := w }).length = N := by
    simp [linkNode, h.sizehash]
  generalize hq : mainpos (hashOf (nameOf p.1)) N = q at *
  generalize (linkNode tbl.hash q main i key (hashOf (nameOf p.1)) kt).modify i (fun n => { n with v := w }) = hash' at *
  have hgeti : hash'[i]? = some ⟨w, key, main.next, hashOf (nameOf p.1), kt, false⟩ := by rw [hget, if_pos rfl]
  have hgetq : hash'[q]? = some { main with next := i, nocolliding := false } := by rw [hget, if_neg hne, if_pos rfl]
  have hother : ∀ j, j ≠ i → j ≠ q → slotOf hash' j = slotOf tbl.hash j := by
    intro j hji hjq
    rw [slotOf, hget, if_neg (Ne.symm hji), if_neg (Ne.symm hjq), ← slotOf]
  have hsloti := slotOf_used hgeti hval
  have hslotq : slotOf hash' q = some (some i) := by
    rw [slotOf_used hgetq hmain]
    simp
  refine ⟨h.sizearray, hlen, h.array, ?_, ?_⟩
  · intro j n' hj hn'
    rw [Table.hash_mk, hget] at hj
    split at hj
    · cases hj
      exact ⟨⟨p, hp, hin, hkey, rfl, hw⟩, by simp⟩
    · split at hj
      · cases hj
        exact ⟨hmainok.source, by simp⟩
      · exact h.node j n' hj hn'
  · intro j n' hj hn'
    rw [Table.hash_mk, hget] at hj
    split at hj
    · rename_i hij
      cases hj
      rw [Table.hash_mk, hq, ← hij]
      obtain ⟨c, hc⟩ := hreach.rest
      exact .inserted hfree hused hsloti hslotq hother hc
    · split at hj
      · rename_i hqj
        cases hj
        rw [← hqj]
        exact hreach.insert hfree hused hsloti hslotq hother
      · exact (h.reached j n' hj hn').insert hfree hused hsloti hslotq hother

/-! ### Values -/

/-- What may go wrong with the pairs of a table. -/
structure Excuses (host : Host) (conv : Conv) (es : Entries) (E : Error → Prop) : Prop where
  memory : ∀ n, host.malloc n = none → E .memory
  overflow : 2 ^ 31 ≤ es.length → E .overflow
  key : ∀ p ∈ es, ∀ sizearray e, countKey sizearray p.1 = .error e → E e
  value : ∀ p ∈ es, ∀ d, p.2 = .lightuserdata d → E (.unsupported .userdata)
  table : ∀ p ∈ es, ∀ sub ctx, p.2 = .table sub → Outcome (fun r => ctx.stringmap.Sub r.2.stringmap) E (conv sub ctx)

theorem malloc_outcome {E : Error → Prop} (hE : ∀ n, host.malloc n = none → E .memory) (ctx : Context) :
    Outcome (fun r => r.2.stringmap = ctx.stringmap) E (malloc host ctx) := by
  unfold malloc
  cases hm : host.malloc ctx.mallocs with
  | some junk => rfl
  | none => exact hE _ hm

theorem setvalue_outcome {E : Error → Prop} (hE : Excuses host conv es E) {p : Value × Value} (hp : p ∈ es)
    (ctx : Context) :
    Outcome (fun r => ctx.stringmap.Sub r.2.stringmap ∧ Agrees conv r.2.stringmap r.1 p.2) E
      (setvalue host conv p.2 ctx) := by
  cases hv : p.2 with
  | nil => exact ⟨.refl _, .nil⟩
  | boolean b => exact ⟨.refl _, .boolean b⟩
  | integer d => exact ⟨.refl _, .integer d⟩
  | number bits => exact ⟨.refl _, .real bits⟩
  | string s =>
    obtain ⟨hsub, hmem⟩ := ctx.stringmap.stringindex_spec s
    exact ⟨hsub, .string hmem⟩
  | lightuserdata d => exact hE.value p hp d hv
  | table sub =>
    refine (malloc_outcome hE.memory ctx).bind fun ⟨_, ctx₁⟩ h₁ => ?_
    simp only at h₁ ⊢
    cases hconv : conv sub ctx₁ with
    | error e => exact (hE.table p hp sub ctx₁ hv).of_error hconv
    | ok r =>
      have hsub := (hE.table p hp sub ctx₁ hv).of_ok hconv
      rw [h₁] at hsub
      exact ⟨hsub, .table ⟨ctx₁, r.2, hconv, .refl _⟩⟩

/-! ### Counting slots -/

def used (hash : List (Node Table)) : Nat := hash.countP fun n => !n.v.isNil

def MainFull (N : Nat) (hash : List (Node Table)) (a : Name) : Prop :=
  ∃ n, hash[mainpos (hashOf a) N]? = some n ∧ n.v.isNil = false

/-- The main position has the key. -/
def atMain (N : Nat) (m : StringMap) (hash : List (Node Table)) (a : Name) : Bool :=
  match hash[mainpos (hashOf a) N]? with
  | some n => !n.v.isNil && n.name m = some a
  | none => false

def isHash (A : Nat) (p : Value × Value) : Bool := !inArray A (nameOf p.1)

/-- The pairs that need a slot besides their main position. -/
def needsSlot (A N : Nat) (m : StringMap) (hash : List (Node Table)) (p : Value × Value) : Bool :=
  isHash A p && !atMain N m hash (nameOf p.1)

theorem atMain_eq {a : Name} {n : Node Table} (h : tbl.hash[mainpos (hashOf a) N]? = some n) (hn : n.v.isNil = false) :
    atMain N m tbl.hash a = decide (n.name m = some a) := by
  simp [atMain, h, hn]

/-- The used slots keep their keys. -/
structure Keeps (m : StringMap) (hash : List (Node Table)) (m' : StringMap) (hash' : List (Node Table)) : Prop where
  sub : m.Sub m'
  node : ∀ (i : Nat) n, hash[i]? = some n → n.v.isNil = false →
    ∃ n', hash'[i]? = some n' ∧ n'.v.isNil = false ∧ n'.keytype = n.keytype ∧ n'.key = n.key

theorem Keeps.of_sub (hsub : m.Sub m') (hash : List (Node Table)) : Keeps m hash m' hash :=
  ⟨hsub, fun _ n hi hn => ⟨n, hi, hn, rfl, rfl⟩⟩

section Keeping

variable {hash' : List (Node Table)} (hk : Keeps m tbl.hash m' hash')
include hk

theorem Keeps.mainFull {a : Name} (h : MainFull N tbl.hash a) : MainFull N hash' a := by
  obtain ⟨n, hi, hn⟩ := h
  obtain ⟨n', hi', hn', -⟩ := hk.node _ n hi hn
  exact ⟨n', hi', hn'⟩

theorem Keeps.name (h : Sound conv A N es m tbl) {i : Nat} {n : Node Table} (hi : tbl.hash[i]? = some n)
    (hn : n.v.isNil = false) : ∃ n', hash'[i]? = some n' ∧ n'.v.isNil = false ∧ n'.name m' = n.name m := by
  obtain ⟨a, ha⟩ := h.named hi hn
  obtain ⟨n', hi', hn', hkt, hkey⟩ := hk.node i n hi hn
  refine ⟨n', hi', hn', ?_⟩
  rw [ha, Node.name, hkt, hkey]
  exact named_mono hk.sub ha

theorem Keeps.atMain_eq (h : Sound conv A N es m tbl) {a : Name} (hmain : MainFull N tbl.hash a) :
    atMain N m' hash' a = atMain N m tbl.hash a := by
  obtain ⟨n, hi, hn⟩ := hmain
  obtain ⟨n', hi', hn', hname⟩ := hk.name h hi hn
  simp [atMain, hi, hn, hi', hn', hname]

theorem Keeps.countP_needsSlot (h : Sound conv A N es m tbl) {ps : Entries}
    (hmain : ∀ p ∈ ps, isHash A p = true → MainFull N tbl.hash (nameOf p.1)) :
    ps.countP (needsSlot A N m' hash') = ps.countP (needsSlot A N m tbl.hash) := by
  apply List.countP_congr
  intro p hp
  unfold needsSlot
  cases hash : isHash A p with
  | false => rfl
  | true => rw [hk.atMain_eq h (hmain p hp hash)]

end Keeping

/-! ### The two passes -/

def ArrayFull (A : Nat) (array : List (Val Table)) (a : Name) : Prop :=
  ∀ i : Nat, a = .integer (i + 1 : Nat) → i < A → ∃ w, array[i]? = some w ∧ w.isNil = false

theorem ArrayFull.set {array : List (Val Table)} {a : Name} (h : ArrayFull A array a) {w : Val Table}
    (hw : w.isNil = false) (i : Nat) : ArrayFull A (array.set i w) a := by
  intro j hj hlt
  obtain ⟨w', hw', hval⟩ := h j hj hlt
  have hlen := (List.getElem?_eq_some_iff.mp hw').1
  by_cases hij : i = j
  · subst hij
    exact ⟨w, by rw [List.getElem?_set_self hlen], hw⟩
  · exact ⟨w', by rw [List.getElem?_set_ne hij, hw'], hval⟩

structure First (conv : Conv) (A N : Nat) (es : Entries) (m₀ : StringMap) (done : Entries) (st : Table × Context) :
    Prop where
  sub : m₀.Sub st.2.stringmap
  sound : Sound conv A N es st.2.stringmap st.1
  array : ∀ p ∈ done, ArrayFull A st.1.array (nameOf p.1)
  main : ∀ p ∈ done, isHash A p = true → MainFull N st.1.hash (nameOf p.1)
  count : used st.1.hash + done.countP (needsSlot A N st.2.stringmap st.1.hash) ≤ done.countP (isHash A)

theorem isHash_of_name {p : Value × Value} {i : Nat} (h : nameOf p.1 = .integer (i + 1 : Nat)) (hi : i < A) :
    isHash A p = false := by
  rw [isHash, inArray_iff.mpr ⟨i, h, hi⟩]
  rfl

theorem used_set {hash : List (Node Table)} {i : Nat} {n : Node Table} (hi : hash[i]? = some n) (n' : Node Table)
    (hn' : n'.v.isNil = false) : used (hash.set i n') = used hash + if n.v.isNil then 1 else 0 := by
  obtain ⟨hlt, hget⟩ := List.getElem?_eq_some_iff.mp hi
  have hle : (if !n.v.isNil then 1 else 0) ≤ used hash := by
    split
    · rename_i hn
      exact List.countP_pos_iff.mpr ⟨n, List.mem_of_getElem? hi, hn⟩
    · exact Nat.zero_le _
  unfold used at *
  rw [List.countP_set hlt, hget, hn']
  cases hn : n.v.isNil with
  | true => simp
  | false =>
    simp only [hn, Bool.not_false, if_true, Bool.false_eq_true, if_false] at hle ⊢
    omega

theorem First.step_keeps {m₀ : StringMap} {done : Entries} {st st' : Table × Context} {p : Value × Value}
    (h : First conv A N es m₀ done st) (hk : Keeps st.2.stringmap st.1.hash st'.2.stringmap st'.1.hash)
    (hsound : Sound conv A N es st'.2.stringmap st'.1)
    (harray : ∀ a, ArrayFull A st.1.array a → ArrayFull A st'.1.array a) (hp : ArrayFull A st'.1.array (nameOf p.1))
    (hmain : isHash A p = true → MainFull N st'.1.hash (nameOf p.1))
    (hcount : used st'.1.hash + [p].countP (needsSlot A N st'.2.stringmap st'.1.hash) ≤
      used st.1.hash + [p].countP (isHash A)) : First conv A N es m₀ (done ++ [p]) st' where
  sub := h.sub.trans hk.sub
  sound := hsound
  array q hq := by
    rcases List.mem_append.mp hq with hq | hq
    · exact harray _ (h.array q hq)
    · rwa [List.mem_singleton.mp hq]
  main q hq := by
    rcases List.mem_append.mp hq with hq | hq
    · exact fun hash => hk.mainFull (h.main q hq hash)
    · rwa [List.mem_singleton.mp hq]
  count := by
    have hdone := hk.countP_needsSlot h.sound h.main
    have hle := h.count
    rw [List.countP_append, List.countP_append, hdone]
    omega

theorem nocolliding_outcome {E : Error → Prop} (hE : Excuses host conv es E) {m₀ : StringMap} {done : Entries}
    {p : Value × Value} {st : Table × Context} (hp : p ∈ es) (hval : p.2.isNil = false) (hN : 0 < N)
    (h : First conv A N es m₀ done st) :
    Outcome (First conv A N es m₀ (done ++ [p])) E (nocolliding host conv st p) := by
  obtain ⟨tbl, ctx⟩ := st
  obtain ⟨hsub, hplace⟩ := ishashkey_cases tbl.sizearray p.1 ctx.stringmap
  have hA : tbl.sizearray = A := h.sound.sizearray
  have hsize : tbl.sizehash = N := h.sound.sizehash
  simp only [nocolliding]
  generalize ishashkey tbl.sizearray p.1 ctx.stringmap = r at *
  obtain ⟨place, m₁⟩ := r
  have hsound₁ : Sound conv A N es m₁ tbl := h.sound.mono hsub
  rw [hA] at hplace
  rcases hplace with ⟨i, rfl, hname, hi⟩ | ⟨key, kt, rfl, hin, hkey⟩
  · refine (setvalue_outcome hE hp _).bind fun ⟨w, ctx₂⟩ ⟨hsub₂, hw⟩ => ?_
    have hwval := hw.isNil_eq.trans hval
    have hidx : ((i + 1 : Nat) - 1 : Int).toNat = i := by omega
    have hfull : ArrayFull A (tbl.array.set i w) (nameOf p.1) := by
      intro j hj _
      rw [hname, Name.integer.injEq] at hj
      obtain rfl : i = j := by omega
      exact ⟨w, List.getElem?_set_self (by rw [h.sound.sizearray]; exact hi), hwval⟩
    refine h.step_keeps (.of_sub (hsub.trans hsub₂) _) ?_ ?_ ?_ ?_ ?_
    · simp only [hidx]
      exact (hsound₁.mono hsub₂).setarray hp hname hw
    · simp only [hidx]
      exact fun a ha => ha.set hwval i
    · simp only [hidx]
      exact hfull
    · rw [isHash_of_name hname hi]
      exact fun h => by cases h
    · simp [needsSlot, isHash_of_name hname hi]
  · have hhash : isHash A p = true := by rw [isHash, hin]; rfl
    have hnoarray : ∀ array, ArrayFull A array (nameOf p.1) := by
      intro array i hname hi
      rw [isHash_of_name hname hi] at hhash
      cases hhash
    have hlt : mainpos (hashOf (nameOf p.1)) N < tbl.hash.length := by
      rw [h.sound.sizehash]
      exact Nat.mod_lt _ hN
    simp only [hsize]
    obtain ⟨n, hn⟩ : ∃ n, tbl.hash[mainpos (hashOf (nameOf p.1)) N]? = some n := ⟨_, List.getElem?_eq_getElem hlt⟩
    simp only [hn]
    cases hnil : n.v.isNil with
    | true =>
      simp only [if_true]
      refine (setvalue_outcome hE hp _).bind fun ⟨w, ctx₂⟩ ⟨hsub₂, hw⟩ => ?_
      have hwval := hw.isNil_eq.trans hval
      have hkey₂ := named_mono hsub₂ hkey
      have hget := List.getElem?_set_self (a := (⟨w, key, -1, hashOf (nameOf p.1), kt, true⟩ : Node Table)) hlt
      have hused := used_set hn ⟨w, key, -1, hashOf (nameOf p.1), kt, true⟩ hwval
      refine h.step_keeps ⟨hsub.trans hsub₂, ?_⟩ ?_ (fun _ ha => ha) (hnoarray _) (fun _ => ⟨_, hget, hwval⟩) ?_
      · intro i n' hi hn'
        have hne : mainpos (hashOf (nameOf p.1)) N ≠ i := by
          rintro rfl
          rw [hn] at hi
          cases hi
          rw [hnil] at hn'
          cases hn'
        exact ⟨n', by rw [Table.hash_mk, List.getElem?_set_ne hne, hi], hn', rfl, rfl⟩
      · exact (hsound₁.mono hsub₂).place hp hin hn hnil hkey₂ hw hwval
      · have hat : atMain N ctx₂.stringmap (tbl.hash.set (mainpos (hashOf (nameOf p.1)) N)
            ⟨w, key, -1, hashOf (nameOf p.1), kt, true⟩) (nameOf p.1) = true := by
          simp only [atMain, hget, hwval, Node.name, hkey₂]
          simp
        rw [hnil, if_pos rfl] at hused
        simp only [Table.hash_mk, hused]
        simp [needsSlot, hhash, hat]
    | false =>
      refine h.step_keeps (.of_sub hsub _) hsound₁ (fun _ ha => ha) (hnoarray _) (fun _ => ⟨n, hn, hnil⟩) ?_
      have hle : [p].countP (needsSlot A N m₁ tbl.hash) ≤ [p].countP (isHash A) :=
        List.countP_mono_left fun q _ hq => by
          rw [needsSlot, Bool.and_eq_true] at hq
          exact hq.1
      simpa using hle

structure Second (conv : Conv) (A N : Nat) (es : Entries) (m₀ : StringMap) (done : Entries) (st : Table × Context) :
    Prop where
  sub : m₀.Sub st.2.stringmap
  sound : Sound conv A N es st.2.stringmap st.1
  array : ∀ p ∈ es, ArrayFull A st.1.array (nameOf p.1)
  main : ∀ p ∈ es, isHash A p = true → MainFull N st.1.hash (nameOf p.1)
  inserted : ∀ p ∈ done, isHash A p = true →
    ∃ (i : Nat) (n : Node Table), st.1.hash[i]? = some n ∧ n.v.isNil = false ∧ n.name st.2.stringmap = some (nameOf p.1)
  count : used st.1.hash + (es.drop done.length).countP (needsSlot A N st.2.stringmap st.1.hash) ≤ N

theorem First.second {m₀ : StringMap} {st : Table × Context} (h : First conv A N es m₀ es st)
    (hN : es.countP (isHash A) ≤ N) : Second conv A N es m₀ [] st where
  sub := h.sub
  sound := h.sound
  array := h.array
  main := h.main
  inserted _ hp := by cases hp
  count := h.count.trans hN

theorem Second.step_keeps {m₀ : StringMap} {done rest : Entries} {st st' : Table × Context} {p : Value × Value}
    (hes : es = done ++ p :: rest) (h : Second conv A N es m₀ done st)
    (hk : Keeps st.2.stringmap st.1.hash st'.2.stringmap st'.1.hash)
    (hsound : Sound conv A N es st'.2.stringmap st'.1) (harray : st'.1.array = st.1.array)
    (hp : isHash A p = true → ∃ (i : Nat) (n : Node Table), st'.1.hash[i]? = some n ∧ n.v.isNil = false ∧
      n.name st'.2.stringmap = some (nameOf p.1))
    (hcount : used st'.1.hash ≤ used st.1.hash + [p].countP (needsSlot A N st.2.stringmap st.1.hash)) :
    Second conv A N es m₀ (done ++ [p]) st' where
  sub := h.sub.trans hk.sub
  sound := hsound
  array q hq := by
    rw [harray]
    exact h.array q hq
  main q hq hash := hk.mainFull (h.main q hq hash)
  inserted q hq := by
    rcases List.mem_append.mp hq with hq | hq
    · intro hash
      obtain ⟨i, n, hi, hn, hname⟩ := h.inserted q hq hash
      obtain ⟨n', hi', hn', hname'⟩ := hk.name h.sound hi hn
      exact ⟨i, n', hi', hn', hname'.trans hname⟩
    · rwa [List.mem_singleton.mp hq]
  count := by
    have hrest : ∀ q ∈ rest, isHash A q = true → MainFull N st.1.hash (nameOf q.1) := fun q hq =>
      h.main q (by rw [hes]; exact List.mem_append_right _ (List.mem_cons_of_mem _ hq))
    have hle := h.count
    have hdrop : es.drop done.length = p :: rest := by rw [hes, List.drop_left]
    have hdrop' : es.drop (done ++ [p]).length = rest := by
      rw [hes, List.append_cons done p rest, List.drop_left]
    rw [hdrop, List.countP_cons] at hle
    rw [hdrop', hk.countP_needsSlot h.sound hrest]
    rw [List.countP_singleton] at hcount
    omega

theorem linkNode_eq {hash : List (Node Table)} {pos i : Nat} {main n : Node Table} (hpos : hash[pos]? = some main)
    (hi : hash[i]? = some n) (hne : i ≠ pos) (key : Int) (keyhash : UInt32) (kt : KeyType) (w : Val Table) :
    (linkNode hash pos main i key keyhash kt).modify i (fun n => { n with v := w }) =
      (hash.set i ⟨w, key, main.next, keyhash, kt, false⟩).set pos { main with next := i, nocolliding := false } := by
  apply List.ext_getElem?
  intro j
  have hlti := (List.getElem?_eq_some_iff.mp hi).1
  have hltpos := (List.getElem?_eq_some_iff.mp hpos).1
  rw [linkNode_get hpos hi hne, List.getElem?_set, List.getElem?_set, List.length_set]
  by_cases hij : i = j
  · subst hij
    simp [hlti, Ne.symm hne]
  · by_cases hpj : pos = j
    · subst hpj
      simp [hltpos, hij]
    · simp [hij, hpj]

theorem colliding_outcome {E : Error → Prop} (hE : Excuses host conv es E) {m₀ : StringMap} {done rest : Entries}
    {p : Value × Value} {st : Table × Context} (hes : es = done ++ p :: rest) (hval : p.2.isNil = false)
    (h : Second conv A N es m₀ done st) :
    Outcome (Second conv A N es m₀ (done ++ [p])) E (colliding host conv st p) := by
  have hp : p ∈ es := by rw [hes]; exact List.mem_append_right _ (List.mem_cons_self ..)
  obtain ⟨tbl, ctx⟩ := st
  obtain ⟨hsub, hplace⟩ := ishashkey_cases tbl.sizearray p.1 ctx.stringmap
  have hA : tbl.sizearray = A := h.sound.sizearray
  have hsize : tbl.sizehash = N := h.sound.sizehash
  simp only [colliding]
  generalize ishashkey tbl.sizearray p.1 ctx.stringmap = r at *
  obtain ⟨place, m₁⟩ := r
  have hsound₁ : Sound conv A N es m₁ tbl := h.sound.mono hsub
  have hk₁ : Keeps ctx.stringmap tbl.hash m₁ tbl.hash := .of_sub hsub _
  rw [hA] at hplace
  rcases hplace with ⟨i, rfl, hname, hi⟩ | ⟨key, kt, rfl, hin, hkey⟩
  · refine h.step_keeps hes hk₁ hsound₁ rfl ?_ (Nat.le_add_right ..)
    rw [isHash_of_name hname hi]
    exact fun h => by cases h
  · have hhash : isHash A p = true := by rw [isHash, hin]; rfl
    obtain ⟨main, hpos, hmain⟩ := h.main p hp hhash
    simp only [hsize, hpos]
    split
    · rename_i hsame
      refine h.step_keeps hes hk₁ hsound₁ rfl (fun _ => ⟨_, main, hpos, hmain, ?_⟩) (Nat.le_add_right ..)
      rw [Node.name, hsame.1, hsame.2]
      exact hkey
    · rename_i hother
      have hneed : needsSlot A N ctx.stringmap tbl.hash p = true := by
        rw [needsSlot, hhash, ← hk₁.atMain_eq h.sound ⟨main, hpos, hmain⟩, atMain_eq hpos hmain]
        have hname : ¬main.name m₁ = some (nameOf p.1) := fun hname => hother (named_inj hname hkey)
        simp [hname]
      have hroom := h.count
      rw [show es.drop done.length = p :: rest by rw [hes, List.drop_left], List.countP_cons, hneed] at hroom
      cases hfind : tbl.hash.findIdx? fun n => n.v.isNil with
      | none =>
        have hall : used tbl.hash = tbl.hash.length := List.countP_eq_length.mpr fun n hn => by
          simpa using List.findIdx?_eq_none_iff.mp hfind n hn
        have hlen := h.sound.sizehash
        rw [if_pos rfl] at hroom
        simp only [hall] at hroom hlen
        omega
      | some i =>
        obtain ⟨hlt, hnil, -⟩ := List.findIdx?_eq_some_iff_getElem.mp hfind
        have hi : tbl.hash[i]? = some tbl.hash[i] := List.getElem?_eq_getElem hlt
        generalize tbl.hash[i] = n at hi hnil
        have hne : i ≠ mainpos (hashOf (nameOf p.1)) N := by
          intro he
          rw [← he, hi] at hpos
          cases hpos
          rw [hnil] at hmain
          cases hmain
        refine (setvalue_outcome hE hp _).bind ?_
        rintro ⟨w, ctx₂⟩ ⟨hsub₂, hw⟩
        have hwval := hw.isNil_eq.trans hval
        have hkey₂ := named_mono hsub₂ hkey
        have hget := linkNode_get hpos hi hne key (hashOf (nameOf p.1)) kt w
        have heq := linkNode_eq hpos hi hne key (hashOf (nameOf p.1)) kt w
        refine h.step_keeps hes ⟨hsub.trans hsub₂, ?_⟩ ?_ rfl (fun _ => ⟨i, _, (hget i).trans (if_pos rfl), hwval, hkey₂⟩) ?_
        · intro j n' hj hn'
          have hij : i ≠ j := by
            rintro rfl
            rw [hi] at hj
            cases hj
            rw [hnil] at hn'
            cases hn'
          have hgetj := (hget j).trans (if_neg hij)
          by_cases hpj : mainpos (hashOf (nameOf p.1)) N = j
          · rw [if_pos hpj] at hgetj
            rw [← hpj, hpos] at hj
            cases hj
            exact ⟨_, hgetj, hmain, rfl, rfl⟩
          · rw [if_neg hpj] at hgetj
            exact ⟨n', hgetj.trans hj, hn', rfl, rfl⟩
        · exact (hsound₁.mono hsub₂).insert hp hin hpos hmain hi hnil hkey₂ hw hwval
        · have hset := used_set hi ⟨w, key, main.next, hashOf (nameOf p.1), kt, false⟩ hwval
          have hpos' := (List.getElem?_set_ne (a := (⟨w, key, main.next, hashOf (nameOf p.1), kt, false⟩ : Node Table))
            hne).trans hpos
          have hset' := used_set hpos' { main with next := i, nocolliding := false } hmain
          rw [hnil] at hset
          rw [hmain] at hset'
          simp only [Table.hash_mk, heq, hset', hset]
          simp [hneed]

end Fill

end Sharedata
end Skynet
