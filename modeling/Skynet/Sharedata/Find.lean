import Skynet.Sharedata.Built

/-!
# Skynet.Sharedata.Find

What a lookup finds in a structure that `convtable` built.

* `lookupName_present` : a key that a slot has is found, in a slot with this key.
* `lookupName_absent` : in a hash part without free slots a key that no slot has is not found, wherever
  the lookup starts.
* `lindexconf_present`, `lindexconf_found` : the same for the values that `lindexconf` gives.
-/

namespace Skynet
namespace Sharedata

open Lua

section Find

variable {L : Int → Option Bytes} {conv : Conv} {A : Nat} {es : Entries} {m : StringMap} {tbl : Table}

/-- `lookup_key`, as it is called for a key. -/
def lookupName (L : Int → Option Bytes) (tbl : Table) : Name → Except Fault (Option Nat)
  | .integer key => lookup_key L tbl (UInt32.ofInt key) key .integer []
  | .string s => lookup_key L tbl (calchash s) 0 .string s

def Node.hasName (L : Int → Option Bytes) (n : Node Table) : Name → Bool
  | .integer key => n.hasKey L (UInt32.ofInt key) key .integer []
  | .string s => n.hasKey L (calchash s) 0 .string s

theorem hasName_iff (hL : Reads L m) {n : Node Table} {a q : Name} (hn : n.name m = some a)
    (hhash : n.keyhash = hashOf a) : n.hasName L q = true ↔ q = a := by
  rw [Node.name] at hn
  cases hkt : n.keytype with
  | integer =>
    rw [hkt] at hn
    cases hn
    cases q with
    | integer key =>
      simp only [Node.hasName, Node.hasKey, hhash, hashOf, hkt, Name.integer.injEq]
      constructor
      · intro h
        simp only [Bool.and_eq_true, decide_eq_true_eq] at h
        exact h.2.2.symm
      · rintro rfl
        simp
    | string s => simp [Node.hasName, Node.hasKey, hkt]
  | string =>
    rw [hkt] at hn
    obtain ⟨s', hs', rfl⟩ := Option.map_eq_some_iff.mp hn
    have hread : L n.key = some s' := hL _ (convert_stringmap_eq_some.mp hs')
    cases q with
    | integer key => simp [Node.hasName, Node.hasKey, hkt]
    | string s =>
      simp only [Node.hasName, Node.hasKey, hhash, hashOf, hkt, hread, Name.string.injEq]
      constructor
      · intro h
        simp only [Bool.and_eq_true, decide_eq_true_eq] at h
        exact h.2.2
      · rintro rfl
        simp

/-- The slots that have a key. -/
def slotHasName (L : Int → Option Bytes) (hash : List (Node Table)) (q : Name) (i : Nat) : Bool :=
  match hash[i]? with
  | some n => n.hasName L q
  | none => false

/-- From a used main position, the lookup goes along the chain. -/
theorem lookupName_chain (hs : Sound conv A tbl.sizehash es m tbl) (hL : Reads L m) {q : Name} {n : Node Table}
    (hpos : tbl.hash[mainpos (hashOf q) tbl.sizehash]? = some n) (hn : n.v.isNil = false) {c : List Nat}
    (hc : Chain (slotOf tbl.hash) (mainpos (hashOf q) tbl.sizehash) c) :
    lookupName L tbl q = .ok (c.find? (slotHasName L tbl.hash q)) := by
  have hlt := (List.getElem?_eq_some_iff.mp hpos).1
  have hsize : tbl.sizehash ≠ 0 := by
    rw [Table.sizehash]
    omega
  have hfuel : c.length ≤ tbl.sizehash := hc.length_le fun _ hj => slotOf_lt hj
  have hok := hs.node _ n hpos hn
  obtain ⟨p, -, -, hname, hhash, -⟩ := hok.source
  -- a main position that is not part of a longer chain, with another hash
  have hshort : hashOf q ≠ n.keyhash → n.nocolliding = true → c.find? (slotHasName L tbl.hash q) = none := by
    intro hne hnoc
    have hslot := slotOf_used hpos hn
    rw [if_pos (hok.last hnoc)] at hslot
    rw [hc.unique (.last hslot), List.find?_eq_none]
    intro j hj
    rw [List.mem_singleton.mp hj, slotHasName, hpos]
    intro htrue
    rw [(hasName_iff hL hname hhash).mp htrue, hhash] at hne
    exact hne rfl
  cases q with
  | integer key =>
    simp only [lookupName, lookup_key, if_neg hsize]
    simp only [hashOf] at hpos hshort hc
    simp only [hpos]
    split
    · rename_i hcond
      rw [hshort hcond.1 hcond.2]
    · exact lookupLoop_chain L tbl.hash _ key .integer [] hc hfuel
  | string s =>
    simp only [lookupName, lookup_key, if_neg hsize]
    simp only [hashOf] at hpos hshort hc
    simp only [hpos]
    split
    · rename_i hcond
      rw [hshort hcond.1 hcond.2]
    · exact lookupLoop_chain L tbl.hash _ 0 .string s hc hfuel

theorem lookupName_present (hs : Sound conv A tbl.sizehash es m tbl) (hL : Reads L m) {q : Name} {i : Nat}
    {n : Node Table} (hi : tbl.hash[i]? = some n) (hn : n.v.isNil = false) (hname : n.name m = some q) :
    ∃ j n', lookupName L tbl q = .ok (some j) ∧ tbl.hash[j]? = some n' ∧ n'.v.isNil = false ∧ n'.name m = some q := by
  obtain ⟨p, -, -, hp, hhash, -⟩ := (hs.node i n hi hn).source
  rw [hname, Option.some.injEq] at hp
  obtain ⟨c, hc, hmem⟩ := hs.reached i n hi hn
  rw [hhash, ← hp] at hc
  obtain ⟨o, ho⟩ := Option.isSome_iff_exists.mp (hc.used _ hc.head_mem)
  obtain ⟨main, hmain, hval, -⟩ := slotOf_eq_some ho
  have hfound : slotHasName L tbl.hash q i = true := by
    rw [slotHasName, hi]
    exact (hasName_iff hL hname (hhash.trans (by rw [hp]))).mpr rfl
  cases hfind : c.find? (slotHasName L tbl.hash q) with
  | none => exact absurd hfound (List.find?_eq_none.mp hfind i hmem)
  | some j =>
    obtain ⟨o', ho'⟩ := Option.isSome_iff_exists.mp (hc.used j (List.mem_of_find?_eq_some hfind))
    obtain ⟨n', hj, hval', -⟩ := slotOf_eq_some ho'
    have hkey := List.find?_some hfind
    rw [slotHasName, hj] at hkey
    obtain ⟨p', -, -, hp', hhash', -⟩ := (hs.node j n' hj hval').source
    have hq := (hasName_iff hL hp' hhash').mp hkey
    exact ⟨j, n', (lookupName_chain hs hL hmain hval hc).trans (by rw [hfind]), hj, hval', hp'.trans (by rw [hq])⟩

theorem lookupName_absent (hs : Sound conv A tbl.sizehash es m tbl) (hL : Reads L m) {q : Name}
    (hfull : ∀ n ∈ tbl.hash, n.v.isNil = false) (habsent : ∀ n ∈ tbl.hash, n.name m ≠ some q) :
    lookupName L tbl q = .ok none := by
  by_cases hsize : tbl.sizehash = 0
  · cases q <;> simp [lookupName, lookup_key, hsize]
  have hlt : mainpos (hashOf q) tbl.sizehash < tbl.hash.length := Nat.mod_lt _ (Nat.pos_of_ne_zero hsize)
  have hpos := List.getElem?_eq_getElem hlt
  have hval := hfull _ (List.getElem_mem hlt)
  obtain ⟨c, hc⟩ := (hs.reached _ _ hpos hval).rest
  rw [lookupName_chain hs hL hpos hval hc]
  congr 1
  rw [List.find?_eq_none]
  intro j hj hkey
  obtain ⟨o, ho⟩ := Option.isSome_iff_exists.mp (hc.used j hj)
  obtain ⟨n, hn, hnval, -⟩ := slotOf_eq_some ho
  rw [slotHasName, hn] at hkey
  obtain ⟨p, -, -, hp, hhash, -⟩ := (hs.node j n hn hnval).source
  have hq := (hasName_iff hL hp hhash).mp hkey
  exact habsent n (List.mem_of_getElem? hn) (hp.trans (by rw [hq]))

theorem lookupName_found {q : Name} {j : Nat} (h : lookupName L tbl q = .ok (some j)) :
    ∃ n, tbl.hash[j]? = some n ∧ n.hasName L q = true := by
  have hkey : ∀ {keyhash key keytype str}, lookup_key L tbl keyhash key keytype str = .ok (some j) →
      slotHasKey L tbl.hash keyhash key keytype str j = true := by
    intro keyhash key keytype str h
    unfold lookup_key at h
    split at h
    · cases h
    simp only at h
    split at h
    · cases h
    split at h
    · cases h
    exact lookupLoop_found L tbl.hash _ _ _ _ h
  cases q with
  | integer key =>
    have hslot := hkey h
    unfold slotHasKey at hslot
    split at hslot
    · rename_i n hn
      exact ⟨n, hn, hslot⟩
    · cases hslot
  | string s =>
    have hslot := hkey h
    unfold slotHasKey at hslot
    split at hslot
    · rename_i n hn
      exact ⟨n, hn, hslot⟩
    · cases hslot

/-! ### `lindexconf` -/

/-- The keys that `lindexconf` takes. -/
def IsKey : Value → Prop
  | .integer _ => True
  | .string _ => True
  | _ => False

theorem lindexconf_array {q : Value} (hq : IsKey q) {i : Nat} (hname : nameOf q = .integer (i + 1 : Nat))
    (hi : i < tbl.sizearray) : lindexconf L tbl q = .ok (tbl.array[i]?.map (pushvalue L)) := by
  cases q with
  | integer d =>
    have hd : toInt d = (i + 1 : Nat) := by simpa [nameOf, tointeger] using hname
    simp only [lindexconf, hd]
    rw [if_pos (by omega), show ((i + 1 : Nat) - 1 : Int).toNat = i by omega]
  | string s => cases hname
  | _ => cases hq

theorem lindexconf_hash {q : Value} (hq : IsKey q) (hname : inArray tbl.sizearray (nameOf q) = false) :
    lindexconf L tbl q = (lookupName L tbl (nameOf q)).map (pushnode L tbl) := by
  cases q with
  | integer d =>
    have hout : ¬(0 < toInt d ∧ toInt d ≤ tbl.sizearray) := of_decide_eq_false hname
    simp only [lindexconf, if_neg hout]
    rfl
  | string s => rfl
  | _ => cases hq

/-- The value comes from a pair of the table whose key is the same in the structure. -/
def FromPair (conv : Conv) (es : Entries) (m : StringMap) (q : Name) (w : Val Table) : Prop :=
  w.isNil = false ∧ ∃ p ∈ es, nameOf p.1 = q ∧ Agrees conv m w p.2

theorem lindexconf_present (hb : Built conv A es m tbl) (hL : Reads L m) {q : Value} (hq : IsKey q)
    {p : Value × Value} (hp : p ∈ es) (hname : nameOf p.1 = nameOf q) :
    ∃ w, lindexconf L tbl q = .ok (some (pushvalue L w)) ∧ FromPair conv es m (nameOf q) w := by
  have hA : tbl.sizearray = A := hb.sound.sizearray
  cases hin : inArray A (nameOf q) with
  | true =>
    obtain ⟨i, hi, hlt⟩ := inArray_iff.mp hin
    obtain ⟨w, hw, hval⟩ := hb.array p hp i (hname.trans hi) hlt
    obtain ⟨p', hp', hname', hv⟩ := hb.sound.array i w hw hval
    refine ⟨w, ?_, hval, p', hp', hname'.trans hi.symm, hv⟩
    rw [lindexconf_array hq hi (by omega), hw, Option.map_some]
  | false =>
    obtain ⟨i, n, hi, hn, hnn⟩ := hb.hash p hp (by rw [isHash, hname, hin]; rfl)
    rw [hname] at hnn
    obtain ⟨j, n', hj, hn', hval, hname'⟩ := lookupName_present hb.sound hL hi hn hnn
    obtain ⟨p', hp', -, hp'', -, hv⟩ := (hb.sound.node j n' hn' hval).source
    refine ⟨n'.v, ?_, hval, p', hp', ?_, hv⟩
    · rw [lindexconf_hash hq (by rw [hA, hin]), hj]
      simp [Except.map, pushnode, hn']
    · rw [hname', Option.some.injEq] at hp''
      exact hp''.symm

theorem lindexconf_found (hb : Built conv A es m tbl) (hL : Reads L m) {q : Value} {a : Answer}
    (h : lindexconf L tbl q = .ok (some a)) : ∃ w, a = pushvalue L w ∧ (w.isNil = false → FromPair conv es m (nameOf q) w) := by
  have hA : tbl.sizearray = A := hb.sound.sizearray
  have hq : IsKey q := by
    cases q <;> first | exact True.intro | cases h
  cases hin : inArray A (nameOf q) with
  | true =>
    obtain ⟨i, hi, hlt⟩ := inArray_iff.mp hin
    rw [lindexconf_array hq hi (by omega), Except.ok.injEq, Option.map_eq_some_iff] at h
    obtain ⟨w, hw, rfl⟩ := h
    refine ⟨w, rfl, fun hval => ⟨hval, ?_⟩⟩
    rw [hi]
    exact hb.sound.array i w hw hval
  | false =>
    rw [lindexconf_hash hq (by rw [hA, hin])] at h
    cases hlook : lookupName L tbl (nameOf q) with
    | error e =>
      rw [hlook] at h
      cases h
    | ok o =>
      rw [hlook] at h
      simp only [Except.map, Except.ok.injEq] at h
      obtain ⟨j, rfl, hj⟩ := Option.bind_eq_some_iff.mp h
      obtain ⟨n, hn, hkey⟩ := lookupName_found hlook
      rw [hn, Option.map_some, Option.some.injEq] at hj
      refine ⟨n.v, hj.symm, fun hval => ⟨hval, ?_⟩⟩
      obtain ⟨p, hp, -, hname, hhash, hv⟩ := (hb.sound.node j n hn hval).source
      exact ⟨p, hp, ((hasName_iff hL hname hhash).mp hkey).symm, hv⟩

end Find

end Sharedata
end Skynet
