import Skynet.HandleRegistry
import Skynet.Lib.Bisect

/-!
# Skynet.HandleNames

The names of `skynet_handle.c`: `name`, `name_cap` and `name_count` of the handle storage as the
array they are, with the loops that search it, grow it, shift it and compact it.

`Skynet.Handle` has the names as a list. The array holds that list in its first `name_count` cells
(`Names.Inv.stored`), and both are kept beside the bindings made and not removed since.

* `insertName_spec` : a name goes where the search for it ended, once.
* `retireNames_list` : the compaction is the filter of the list.
* `service_names` : what the names are after every sequence of operations.
-/

namespace Skynet
namespace Handle

/-- A C string: the bytes before the zero that ends it. -/
structure CString where
  bytes : List UInt8
  nonzero : 0 ∉ bytes
deriving DecidableEq

/-- `strcmp`: an ended string has a zero next. -/
def strcmp : List UInt8 → List UInt8 → Int
  | [], [] => 0
  | [], b :: _ => -b.toNat
  | a :: _, [] => a.toNat
  | a :: as, b :: bs => if a = b then strcmp as bs else a.toNat - b.toNat

def maxSlotSize : Nat := 0x40000000

/-- A cell of the array `name`. -/
structure NameCell where
  name : CString
  handle : Nat

/-- `name_cap`, `name_count` and `name` of `struct handle_storage`. Cells from `nameCount` on are not
read. -/
structure NameArray where
  nameCap : Nat
  nameCount : Nat
  name : Nat → NameCell

/-- The part of `skynet_handle_init` about the names: `block` is what `skynet_malloc` returns. -/
def nameInit (block : Nat → NameCell) : NameArray where
  nameCap := 2
  nameCount := 0
  name := block

/-- `strcmp(s->name[i].name, name)`. -/
def NameArray.compare (a : NameArray) (name : CString) (i : Nat) : Int := strcmp (a.name i).name.bytes name.bytes

def skynetHandleFindname (a : NameArray) (name : CString) : Nat :=
  match Bisect.search (a.compare name) 0 (a.nameCount - 1) with
  | .inl mid => (a.name mid).handle
  | .inr _ => 0

section Loops

variable {α : Type}

/-- `for (i=0;i<n;i++) dst[i] = src[i];` -/
def copyLoop (src dst : Nat → α) : Nat → Nat → α
  | 0 => dst
  | n + 1 => Function.update (copyLoop src dst n) n (src n)

/-- `for (i=before;i<before+n;i++) dst[i+1] = src[i];` -/
def copyUpLoop (src dst : Nat → α) (before : Nat) : Nat → Nat → α
  | 0 => dst
  | n + 1 => Function.update (copyUpLoop src dst before n) (before + n + 1) (src (before + n))

/-- `for (i=before+n;i>before;i--) name[i] = name[i-1];` -/
def shiftLoop (before : Nat) : Nat → (Nat → α) → Nat → α
  | 0, name => name
  | n + 1, name => shiftLoop before n (Function.update name (before + n + 1) (name (before + n)))

end Loops

/-- `_insert_name_before`; `none` where the assertion on the capacity fails. (The capacity is a power
of two, so its doubling overflows an `int` at the limit only: no array of that size is allocated.) -/
def insertNameBefore (a : NameArray) (block : Nat → NameCell) (name : CString) (handle before : Nat) :
    Option NameArray :=
  if a.nameCap ≤ a.nameCount then
    if a.nameCap * 2 ≤ maxSlotSize then
      let n := copyUpLoop a.name (copyLoop a.name block before) before (a.nameCount - before)
      some { nameCap := a.nameCap * 2, nameCount := a.nameCount + 1,
             name := Function.update n before ⟨name, handle⟩ }
    else none
  else
    let n := shiftLoop before (a.nameCount - before) a.name
    some { a with nameCount := a.nameCount + 1, name := Function.update n before ⟨name, handle⟩ }

/-- `_insert_name`: the array and the copy of the name, if it was free. -/
def insertName (a : NameArray) (block : Nat → NameCell) (name : CString) (handle : Nat) :
    Option (NameArray × Option CString) :=
  match Bisect.search (a.compare name) 0 (a.nameCount - 1) with
  | .inl _ => some (a, none)
  | .inr before => (insertNameBefore a block name handle before).map fun a => (a, some name)

def skynetHandleNamehandle (a : NameArray) (block : Nat → NameCell) (handle : Nat) (name : CString) :
    Option (NameArray × Option CString) :=
  insertName a block name handle

/-- The loop of `skynet_handle_retire` over the names after `n` of its rounds: the cells and `j`. -/
def compactLoop (handle : Nat) (name : Nat → NameCell) : Nat → (Nat → NameCell) × Nat
  | 0 => (name, 0)
  | i + 1 =>
    let (cells, j) := compactLoop handle name i
    if (cells i).handle = handle then (cells, j)
    else if i ≠ j then (Function.update cells j (cells i), j + 1)
    else (cells, j + 1)

/-- The part of `skynet_handle_retire` about the names. -/
def retireNames (a : NameArray) (handle : Nat) : NameArray :=
  let (cells, j) := compactLoop handle a.name a.nameCount
  { a with nameCount := j, name := cells }

/-! ### strcmp -/

theorem strcmp_neg (a b : List UInt8) : strcmp b a = -strcmp a b := by
  induction a generalizing b with
  | nil => cases b <;> simp [strcmp]
  | cons x a ih =>
    cases b with
    | nil => simp [strcmp]
    | cons y b =>
      by_cases hxy : x = y
      · simp [strcmp, hxy, ih]
      · simp only [strcmp, hxy, Ne.symm hxy, if_false]
        omega

theorem toNat_pos {x : UInt8} {l : List UInt8} (h : 0 ∉ x :: l) : 0 < x.toNat := by
  rw [Nat.pos_iff_ne_zero]
  intro hx
  exact h (List.mem_cons.mpr (.inl (UInt8.toNat_inj.mp (by rw [hx]; rfl))))

theorem strcmp_eq_zero {a b : List UInt8} (ha : 0 ∉ a) (hb : 0 ∉ b) : strcmp a b = 0 ↔ a = b := by
  induction a generalizing b with
  | nil =>
    cases b with
    | nil => simp [strcmp]
    | cons y b => have := toNat_pos hb; simp [strcmp]; omega
  | cons x a ih =>
    cases b with
    | nil => have := toNat_pos ha; simp [strcmp]; omega
    | cons y b =>
      by_cases hxy : x = y
      · subst hxy
        simp only [strcmp, if_true, ih (fun h => ha (List.mem_cons_of_mem _ h)) fun h => hb (List.mem_cons_of_mem _ h),
          List.cons.injEq, true_and]
      · have : x.toNat ≠ y.toNat := fun h => hxy (UInt8.toNat_inj.mp h)
        simp only [strcmp, hxy, if_false, List.cons.injEq, false_and, iff_false]
        omega

theorem strcmp_trans {a b c : List UInt8} (hb : 0 ∉ b) (hab : strcmp a b < 0) (hbc : strcmp b c < 0) : strcmp a c < 0 := by
  induction a generalizing b c with
  | nil =>
    cases c with
    | nil => cases b <;> (simp [strcmp] at hab hbc; try omega)
    | cons z c =>
      cases b with
      | nil => simp [strcmp] at hab
      | cons y b =>
        have := toNat_pos hb
        by_cases hyz : y = z
        · subst hyz; simp only [strcmp]; omega
        · simp only [strcmp, hyz, if_false] at hbc ⊢; omega
  | cons x a ih =>
    cases b with
    | nil => simp only [strcmp] at hab; omega
    | cons y b =>
      cases c with
      | nil => simp only [strcmp] at hbc; omega
      | cons z c =>
        have hb' : 0 ∉ b := fun h => hb (List.mem_cons_of_mem _ h)
        have hne : ∀ {x y : UInt8}, x ≠ y → x.toNat ≠ y.toNat := fun h he => h (UInt8.toNat_inj.mp he)
        by_cases hxy : x = y <;> by_cases hyz : y = z
        · subst hxy; subst hyz
          simp only [strcmp, if_true] at hab hbc ⊢
          exact ih hb' hab hbc
        · subst hxy
          simpa only [strcmp, hyz, if_false] using hbc
        · subst hyz
          simpa only [strcmp, hxy, if_false] using hab
        · simp only [strcmp, hxy, hyz, if_false] at hab hbc
          have hxz : x ≠ z := by rintro rfl; omega
          simp only [strcmp, hxz, if_false]
          omega

/-! ### The loops -/

section Loops

variable {α : Type} (src dst name : Nat → α) (before n i : Nat)

theorem copyLoop_apply : copyLoop src dst n i = if i < n then src i else dst i := by
  induction n with
  | zero => rfl
  | succ n ih =>
    by_cases hi : i = n
    · subst hi; simp [copyLoop]
    · rw [copyLoop, Function.update_of_ne hi, ih]
      have : i < n + 1 ↔ i < n := by omega
      simp only [this]

theorem copyUpLoop_apply :
    copyUpLoop src dst before n i = if before < i ∧ i ≤ before + n then src (i - 1) else dst i := by
  induction n with
  | zero => rw [copyUpLoop, if_neg (by omega)]
  | succ n ih =>
    by_cases hi : i = before + n + 1
    · subst hi
      rw [copyUpLoop, Function.update_self, if_pos (by omega)]
      rfl
    · rw [copyUpLoop, Function.update_of_ne hi, ih]
      have : before < i ∧ i ≤ before + (n + 1) ↔ before < i ∧ i ≤ before + n := by omega
      simp only [this]

theorem shiftLoop_apply :
    shiftLoop before n name i = if before < i ∧ i ≤ before + n then name (i - 1) else name i := by
  induction n generalizing name with
  | zero => rw [shiftLoop, if_neg (by omega)]
  | succ n ih =>
    rw [shiftLoop, ih]
    by_cases hi : i = before + n + 1
    · subst hi
      rw [if_neg (by omega), Function.update_self, if_pos (by omega)]
      rfl
    · -- the loop goes down, so the cell below has not been written yet
      by_cases hin : before < i ∧ i ≤ before + n
      · rw [if_pos hin, if_pos (by omega), Function.update_of_ne (by omega)]
      · rw [if_neg hin, if_neg (by omega), Function.update_of_ne hi]

end Loops

/-- The cells that are read. -/
def NameArray.cells (a : NameArray) : List NameCell := (List.range a.nameCount).map a.name

/-- The list of `Skynet.Handle`. -/
def NameArray.list (a : NameArray) : List HandleName := a.cells.map fun c => ⟨c.name.bytes, c.handle⟩

/-- The name is bound to the handle. -/
def NameArray.Binds (a : NameArray) (name : CString) (handle : Nat) : Prop :=
  ∃ i, i < a.nameCount ∧ a.name i = ⟨name, handle⟩

def NameArray.Sorted (a : NameArray) : Prop :=
  ∀ i j, i < j → j < a.nameCount → strcmp (a.name i).name.bytes (a.name j).name.bytes < 0

theorem NameArray.Sorted.ascends {a : NameArray} (h : a.Sorted) (name : CString) :
    Bisect.Ascends (a.compare name) a.nameCount := by
  intro i j hij hj hi
  by_contra hle
  have hlt := h i j hij hj
  simp only [NameArray.compare] at hi hle
  rcases Int.lt_or_lt_of_ne (show strcmp (a.name i).name.bytes name.bytes ≠ 0 by
    intro hz
    rw [strcmp_eq_zero (a.name i).name.nonzero name.nonzero] at hz
    rw [hz, strcmp_neg] at hlt
    omega) with hneg | hpos
  · omega
  · have hback := strcmp_neg name.bytes (a.name i).name.bytes
    have := strcmp_trans (a.name i).name.nonzero (show strcmp name.bytes (a.name i).name.bytes < 0 by omega) hlt
    rw [strcmp_neg] at this
    omega

/-- What the search says of a name. -/
theorem search_found {a : NameArray} (h : a.Sorted) {name : CString} {m : Nat}
    (hs : Bisect.search (a.compare name) 0 (a.nameCount - 1) = .inl m) :
    m < a.nameCount ∧ (a.name m).name = name := by
  have := Bisect.search_spec (h.ascends name)
  rw [hs] at this
  obtain ⟨hm, hz⟩ := this
  refine ⟨hm, ?_⟩
  have hb := (strcmp_eq_zero (a.name m).name.nonzero name.nonzero).mp hz
  cases hc : (a.name m).name
  cases name
  rw [hc] at hb
  cases hb
  rfl

theorem search_missing {a : NameArray} (h : a.Sorted) {name : CString} {k : Nat}
    (hs : Bisect.search (a.compare name) 0 (a.nameCount - 1) = .inr k) :
    k ≤ a.nameCount ∧ (∀ i, i < k → strcmp (a.name i).name.bytes name.bytes < 0) ∧
      ∀ i, k ≤ i → i < a.nameCount → strcmp name.bytes (a.name i).name.bytes < 0 := by
  have := Bisect.search_spec (h.ascends name)
  rw [hs] at this
  obtain ⟨hk, hbelow, habove⟩ := this
  refine ⟨hk, hbelow, ?_⟩
  intro i hki hi
  have := habove i hki hi
  rw [NameArray.compare, strcmp_neg] at this
  omega

/-! ### Insertion and compaction -/

theorem insertNameBefore_none {a : NameArray} {block : Nat → NameCell} {name : CString} {handle before : Nat} :
    insertNameBefore a block name handle before = none ↔ a.nameCap ≤ a.nameCount ∧ maxSlotSize < a.nameCap * 2 := by
  simp only [insertNameBefore]
  split
  · rename_i hfull
    split
    · rename_i hcap
      simp only [reduceCtorEq, false_iff]
      omega
    · rename_i hcap
      simp only [true_iff]
      omega
  · rename_i hfull
    simp only [reduceCtorEq, false_iff]
    omega

/-- Growing copies the cells around the free one, and shifting moves them: the same cells result. -/
theorem insertNameBefore_spec {a a' : NameArray} {block : Nat → NameCell} {name : CString} {handle before : Nat}
    (hb : before ≤ a.nameCount) (h : insertNameBefore a block name handle before = some a') :
    a'.nameCount = a.nameCount + 1 ∧ ∀ i, i ≤ a.nameCount →
      a'.name i = if i < before then a.name i else if i = before then ⟨name, handle⟩ else a.name (i - 1) := by
  simp only [insertNameBefore] at h
  split at h
  · split at h
    · cases h
      refine ⟨rfl, ?_⟩
      intro i hi
      rcases Nat.lt_trichotomy i before with hlt | rfl | hlt
      · simp only [Function.update_of_ne (Nat.ne_of_lt hlt), copyUpLoop_apply, copyLoop_apply]
        rw [if_neg (by omega), if_pos hlt, if_pos hlt]
      · simp only [Function.update_self, Nat.lt_irrefl, if_false, if_true]
      · simp only [Function.update_of_ne (Nat.ne_of_gt hlt), copyUpLoop_apply]
        rw [if_pos (by omega), if_neg (by omega), if_neg (by omega)]
    · cases h
  · cases h
    refine ⟨rfl, ?_⟩
    intro i hi
    rcases Nat.lt_trichotomy i before with hlt | rfl | hlt
    · simp only [Function.update_of_ne (Nat.ne_of_lt hlt), shiftLoop_apply]
      rw [if_neg (by omega), if_pos hlt]
    · simp only [Function.update_self, Nat.lt_irrefl, if_false, if_true]
    · simp only [Function.update_of_ne (Nat.ne_of_gt hlt), shiftLoop_apply]
      rw [if_pos (by omega), if_neg (by omega), if_neg (by omega)]

theorem compactLoop_spec (handle : Nat) (name : Nat → NameCell) (n : Nat) :
    (compactLoop handle name n).2 ≤ n ∧ (∀ i, n ≤ i → (compactLoop handle name n).1 i = name i) ∧
      (List.range (compactLoop handle name n).2).map (compactLoop handle name n).1 =
        ((List.range n).map name).filter fun c => c.handle ≠ handle := by
  induction n with
  | zero => exact ⟨Nat.le_refl _, fun _ _ => rfl, rfl⟩
  | succ n ih =>
    obtain ⟨hj, hrest, hlist⟩ := ih
    generalize hr : compactLoop handle name n = r at *
    obtain ⟨cells, j⟩ := r
    have hn : cells n = name n := hrest n (Nat.le_refl _)
    rw [List.range_succ, List.map_append, List.filter_append, ← hlist, compactLoop, hr]
    simp only [hn, List.map_cons, List.map_nil]
    by_cases hh : (name n).handle = handle
    · rw [if_pos hh]
      refine ⟨by simp only; omega, fun i hi => hrest i (by omega), ?_⟩
      simp [hh]
    · rw [if_neg hh]
      by_cases hne : n = j
      · subst hne
        rw [if_neg (by simp)]
        refine ⟨Nat.le_refl _, fun i hi => hrest i (by omega), ?_⟩
        simp [List.range_succ, hh, hn]
      · rw [if_pos hne]
        have hj' : j < n := Nat.lt_of_le_of_ne hj (Ne.symm hne)
        refine ⟨by simp only; omega, ?_, ?_⟩
        · intro i hi
          simp only
          rw [Function.update_of_ne (by omega)]
          exact hrest i (by omega)
        · simp only [List.range_succ, List.map_append, List.map_cons, List.map_nil, Function.update_self]
          congr 1
          · refine List.map_congr_left ?_
            intro i hi
            rw [Function.update_of_ne (Nat.ne_of_lt (List.mem_range.mp hi))]
          · simp [hh]

theorem retireNames_cells (a : NameArray) (handle : Nat) :
    (retireNames a handle).cells = a.cells.filter fun c => c.handle ≠ handle :=
  (compactLoop_spec handle a.name a.nameCount).2.2

/-- What `skynetHandleRetire` does to the list. -/
theorem retireNames_list (a : NameArray) (handle : Nat) :
    (retireNames a handle).list = a.list.filter fun n => n.handle ≠ handle := by
  rw [NameArray.list, retireNames_cells, NameArray.list, List.filter_map]
  rfl

theorem binds_iff {a : NameArray} {name : CString} {handle : Nat} : a.Binds name handle ↔ ⟨name, handle⟩ ∈ a.cells := by
  simp only [NameArray.Binds, NameArray.cells, List.mem_map, List.mem_range]

theorem sorted_iff {a : NameArray} :
    a.Sorted ↔ a.cells.Pairwise fun c d => strcmp c.name.bytes d.name.bytes < 0 := by
  rw [NameArray.cells, List.pairwise_map, List.pairwise_iff_getElem]
  simp only [NameArray.Sorted, List.length_range, List.getElem_range]
  constructor
  · intro h i j hi hj hij
    exact h i j hij hj
  · intro h i j hij hj
    exact h i j (by omega) hj hij

theorem NameArray.Sorted.retire {a : NameArray} (h : a.Sorted) (handle : Nat) : (retireNames a handle).Sorted := by
  rw [sorted_iff, retireNames_cells]
  exact (sorted_iff.mp h).filter _

theorem binds_retire {a : NameArray} {name : CString} {handle x : Nat} :
    (retireNames a handle).Binds name x ↔ a.Binds name x ∧ x ≠ handle := by
  simp only [binds_iff, retireNames_cells, List.mem_filter, decide_eq_true_eq]

/-- A name that is missing goes between the smaller and the larger ones. -/
theorem insert_spec {a a' : NameArray} {block : Nat → NameCell} {name : CString} {handle k : Nat} (h : a.Sorted)
    (hs : Bisect.search (a.compare name) 0 (a.nameCount - 1) = .inr k)
    (ha : insertNameBefore a block name handle k = some a') :
    a'.Sorted ∧ ∀ m x, a'.Binds m x ↔ (m = name ∧ x = handle) ∨ a.Binds m x := by
  obtain ⟨hk, hbelow, habove⟩ := search_missing h hs
  obtain ⟨hcount, hcells⟩ := insertNameBefore_spec hk ha
  constructor
  · intro i j hij hj
    rw [hcount] at hj
    rw [hcells i (by omega), hcells j (by omega)]
    rcases Nat.lt_trichotomy j k with hlt | rfl | hlt
    · rw [if_pos hlt, if_pos (by omega)]
      exact h i j hij (by omega)
    · rw [if_pos hij, if_neg (Nat.lt_irrefl _), if_pos rfl]
      exact hbelow i hij
    · rw [if_neg (show ¬j < k by omega), if_neg (Nat.ne_of_gt hlt)]
      rcases Nat.lt_trichotomy i k with hlt' | rfl | hlt'
      · rw [if_pos hlt']
        exact h i (j - 1) (by omega) (by omega)
      · rw [if_neg (Nat.lt_irrefl _), if_pos rfl]
        exact habove (j - 1) (by omega) (by omega)
      · rw [if_neg (by omega), if_neg (Nat.ne_of_gt hlt')]
        exact h (i - 1) (j - 1) (by omega) (by omega)
  · intro m x
    constructor
    · rintro ⟨i, hi, he⟩
      rw [hcells i (by omega)] at he
      split at he
      · exact .inr ⟨i, by omega, he⟩
      · split at he
        · cases he
          exact .inl ⟨rfl, rfl⟩
        · exact .inr ⟨i - 1, by omega, he⟩
    · rintro (⟨rfl, rfl⟩ | ⟨i, hi, he⟩)
      · refine ⟨k, by omega, ?_⟩
        rw [hcells k hk, if_neg (Nat.lt_irrefl _), if_pos rfl]
      · by_cases hik : i < k
        · refine ⟨i, by omega, ?_⟩
          rw [hcells i (by omega), if_pos hik, he]
        · refine ⟨i + 1, by omega, ?_⟩
          rw [hcells (i + 1) (by omega), if_neg (by omega), if_neg (by omega)]
          exact he

/-! ### The operations in any order -/

inductive NameOp where
  | register (ctx : CtxId)
  | retire (handle : Nat)
  /-- `block` is what `skynet_malloc` returns if the array has to grow. -/
  | namehandle (handle : Nat) (name : CString) (block : Nat → NameCell)
  | findname (name : CString)

structure Names where
  registry : Registry
  array : NameArray
  /-- The handle of the last successful `skynet_handle_namehandle` for a name, unless a successful
  `skynet_handle_retire` has removed it since. -/
  bound : CString → Option Nat

def Names.init (harbor : Nat) (block : Nat → NameCell) : Names where
  registry := Registry.init harbor
  array := nameInit block
  bound := fun _ => none

/-- One operation; a failed assertion ends the run. -/
def Names.step (s : Names) : NameOp → Option Names
  | .register ctx => (s.registry.step (.register ctx)).map fun registry => { s with registry := registry }
  | .retire handle =>
    match s.registry.step (.retire handle) with
    | none => none
    | some registry =>
      -- the names are compacted where the function returns 1
      if (skynetHandleRetire s.registry.handle s.registry.store handle).2.isSome then
        some { registry := registry, array := retireNames s.array handle,
               bound := fun n => if s.bound n = some handle then none else s.bound n }
      else some { s with registry := registry }
  | .namehandle handle name block =>
    match skynetHandleNamehandle s.array block handle name with
    | none => none
    | some (_, none) => some s
    | some (array, some name) =>
      some { registry := { s.registry with store := { s.registry.store with name := array.list } }, array := array,
             bound := Function.update s.bound name (some handle) }
  | .findname _ => some s

theorem registerLoop_name {hd : CtxId → Nat} {ctx : CtxId} {fuel : Nat} {s : HandleStorage}
    {r : HandleStorage × Nat} (h : registerLoop hd ctx fuel s = .ok r) : r.1.name = s.name := by
  induction fuel generalizing s with
  | zero => cases h
  | succ fuel ih =>
    simp only [registerLoop] at h
    split at h
    · cases h
      rfl
    · split at h
      · split at h
        · cases h
        · rename_i newSlot _
          exact (ih h).trans rfl
      · cases h

theorem Registry.register_name {s s' : Registry} {ctx : CtxId} (h : s.step (.register ctx) = some s') :
    s'.store.name = s.store.name := by
  simp only [Registry.step] at h
  split at h
  · split at h
    · rename_i hr
      cases h
      exact registerLoop_name hr
    · cases h
  · cases h

/-- The names that `skynetHandleRetire` leaves, where it finds the context and where it does not. -/
theorem retire_name (hd : CtxId → Nat) (s : HandleStorage) (handle : Nat) :
    (skynetHandleRetire hd s handle).1.name =
      if (skynetHandleRetire hd s handle).2.isSome then s.name.filter fun n => n.handle ≠ handle else s.name := by
  cases hs : s.slot (handle &&& (s.slotSize - 1)) with
  | none => simp [skynetHandleRetire, hs]
  | some ctx => by_cases hc : hd ctx = handle <;> simp [skynetHandleRetire, hs, hc]

/-- The array is sorted, and has the list of the storage and the bindings. -/
structure Names.Inv (s : Names) : Prop where
  sorted : s.array.Sorted
  stored : s.registry.store.name = s.array.list
  bound : ∀ name handle, s.bound name = some handle ↔ s.array.Binds name handle

theorem Names.init_inv (harbor : Nat) (block : Nat → NameCell) : (Names.init harbor block).Inv where
  sorted := fun i j _ hj => absurd hj (Nat.not_lt_zero _)
  stored := rfl
  bound := by
    intro name handle
    constructor
    · intro h
      cases h
    · rintro ⟨i, hi, -⟩
      exact absurd hi (Nat.not_lt_zero _)

theorem Names.Inv.unbound {s : Names} (inv : s.Inv) {name : CString} {k : Nat}
    (hs : Bisect.search (s.array.compare name) 0 (s.array.nameCount - 1) = .inr k) : s.bound name = none := by
  obtain ⟨-, hbelow, habove⟩ := search_missing inv.sorted hs
  have hself := (strcmp_eq_zero name.nonzero name.nonzero).mpr rfl
  by_contra hne
  obtain ⟨handle, hb⟩ := Option.ne_none_iff_exists'.mp hne
  obtain ⟨i, hi, he⟩ := (inv.bound name handle).mp hb
  rcases Nat.lt_or_ge i k with hlt | hge
  · have := hbelow i hlt
    rw [he, hself] at this
    cases this
  · have := habove i hge hi
    rw [he, hself] at this
    cases this

/-- The search ends at the binding. -/
theorem Names.Inv.findname {s : Names} (inv : s.Inv) (name : CString) :
    skynetHandleFindname s.array name = (s.bound name).getD 0 := by
  simp only [skynetHandleFindname]
  split
  · rename_i m hs
    obtain ⟨hm, hname⟩ := search_found inv.sorted hs
    rw [(inv.bound name (s.array.name m).handle).mpr ⟨m, hm, by rw [← hname]⟩]
    rfl
  · rename_i k hs
    rw [inv.unbound hs]
    rfl

/-- What `skynet_handle_namehandle` returns. -/
theorem Names.Inv.namehandle {s : Names} (inv : s.Inv) (handle : Nat) (name : CString) (block : Nat → NameCell) :
    (s.bound name ≠ none ∧ skynetHandleNamehandle s.array block handle name = some (s.array, none)) ∨
      (s.bound name = none ∧
        ((skynetHandleNamehandle s.array block handle name = none ∧ s.array.nameCap ≤ s.array.nameCount ∧
            maxSlotSize < s.array.nameCap * 2) ∨
          ∃ array, skynetHandleNamehandle s.array block handle name = some (array, some name) ∧ array.Sorted ∧
            ∀ m x, array.Binds m x ↔ (m = name ∧ x = handle) ∨ s.array.Binds m x)) := by
  cases hs : Bisect.search (s.array.compare name) 0 (s.array.nameCount - 1) with
  | inl m =>
    obtain ⟨hm, hname⟩ := search_found inv.sorted hs
    refine .inl ⟨?_, by rw [skynetHandleNamehandle, insertName, hs]⟩
    rw [(inv.bound name (s.array.name m).handle).mpr ⟨m, hm, by rw [← hname]⟩]
    exact Option.some_ne_none _
  | inr k =>
    refine .inr ⟨inv.unbound hs, ?_⟩
    simp only [skynetHandleNamehandle, insertName, hs]
    cases ha : insertNameBefore s.array block name handle k with
    | none => exact .inl ⟨rfl, insertNameBefore_none.mp ha⟩
    | some array => exact .inr ⟨array, rfl, insert_spec inv.sorted hs ha⟩

theorem Names.step_inv (s : Names) (op : NameOp) (s' : Names) (inv : s.Inv) (h : s.step op = some s') : s'.Inv := by
  cases op with
  | register ctx =>
    simp only [Names.step, Option.map_eq_some_iff] at h
    obtain ⟨registry, hr, rfl⟩ := h
    refine ⟨inv.sorted, ?_, inv.bound⟩
    exact (Registry.register_name hr).trans inv.stored
  | retire handle =>
    simp only [Names.step, Registry.step] at h
    split at h
    · rename_i hsome
      cases h
      refine ⟨inv.sorted.retire handle, ?_, ?_⟩
      · rw [retire_name, if_pos hsome, inv.stored, retireNames_list]
      · intro name x
        rw [binds_retire, ← inv.bound]
        simp only
        split
        · rename_i hb
          simp only [hb, reduceCtorEq, Option.some.injEq, false_iff, not_and]
          exact fun he hne => hne he.symm
        · rename_i hb
          constructor
          · intro hx
            exact ⟨hx, fun he => hb (he ▸ hx)⟩
          · exact fun hx => hx.1
    · rename_i hnone
      cases h
      exact ⟨inv.sorted, by rw [retire_name, if_neg hnone, inv.stored], inv.bound⟩
  | namehandle handle name block =>
    rcases inv.namehandle handle name block with ⟨-, hr⟩ | ⟨hfree, ⟨hr, -⟩ | ⟨array, hr, hsorted, hbinds⟩⟩
    · simp only [Names.step, hr] at h
      cases h
      exact inv
    · simp only [Names.step, hr] at h
      cases h
    · simp only [Names.step, hr] at h
      cases h
      refine ⟨hsorted, rfl, ?_⟩
      intro m x
      rw [hbinds, ← inv.bound]
      by_cases hm : m = name
      · subst hm
        simp only [Function.update_self, Option.some.injEq, hfree, reduceCtorEq, or_false, true_and]
        exact eq_comm
      · simp only [Function.update_of_ne hm, hm, false_and, false_or]
  | findname name => cases h; exact inv

/-- **Service names.** After every sequence of operations: the array is strictly sorted; a name can be
bound exactly when it is not bound (unless the array would outgrow its limit, where an assertion
stops the process); the name is found with the handle it is bound to, and 0 otherwise; binding a name
and retiring a handle leave the names bound to other handles as they are. -/
theorem service_names (harbor : Nat) (block : Nat → NameCell) (ops : List NameOp) (s : Names)
    (h : Lts.run Names.step (Names.init harbor block) ops = some s) :
    s.array.Sorted ∧
    (∀ handle name block,
      (s.bound name ≠ none → skynetHandleNamehandle s.array block handle name = some (s.array, none)) ∧
      (s.bound name = none →
        (∃ array, skynetHandleNamehandle s.array block handle name = some (array, some name)) ∨
        (skynetHandleNamehandle s.array block handle name = none ∧ s.array.nameCap ≤ s.array.nameCount ∧
          maxSlotSize < s.array.nameCap * 2))) ∧
    (∀ name, skynetHandleFindname s.array name = (s.bound name).getD 0) ∧
    (∀ handle name block s', s.step (.namehandle handle name block) = some s' → ∀ m, m ≠ name →
      skynetHandleFindname s'.array m = skynetHandleFindname s.array m) ∧
    (∀ handle s', s.step (.retire handle) = some s' → ∀ m, s.bound m ≠ some handle →
      skynetHandleFindname s'.array m = skynetHandleFindname s.array m) := by
  have inv : s.Inv := Lts.run_invariant Names.step_inv h (Names.init_inv harbor block)
  refine ⟨inv.sorted, ?_, inv.findname, ?_, ?_⟩
  · intro handle name block
    rcases inv.namehandle handle name block with ⟨hbound, hr⟩ | ⟨hfree, hfull | ⟨array, hr, -⟩⟩
    · exact ⟨fun _ => hr, fun hn => absurd hn hbound⟩
    · exact ⟨fun hn => absurd hfree hn, fun _ => .inr hfull⟩
    · exact ⟨fun hn => absurd hfree hn, fun _ => .inl ⟨array, hr⟩⟩
  · intro handle name block s' hs m hm
    rw [(Names.step_inv s _ s' inv hs).findname, inv.findname]
    simp only [Names.step] at hs
    split at hs
    · cases hs
    · cases hs
      rfl
    · rename_i array copy hr
      rcases inv.namehandle handle name block with ⟨-, hr'⟩ | ⟨-, ⟨hr', -⟩ | ⟨array, hr', -⟩⟩
      · rw [hr'] at hr
        cases hr
      · rw [hr'] at hr
        cases hr
      · rw [hr'] at hr
        cases hr
        cases hs
        simp only [Function.update_of_ne hm]
  · intro handle s' hs m hm
    rw [(Names.step_inv s _ s' inv hs).findname, inv.findname]
    simp only [Names.step, Registry.step] at hs
    split at hs
    · cases hs
      simp only [if_neg hm]
    · cases hs
      rfl

def named (bytes : List UInt8) (h : 0 ∉ bytes := by decide) : CString := ⟨bytes, h⟩

/-- Two services with three names, bound out of order so that the array grows and shifts. -/
def namedOps : List NameOp :=
  [.register 10, .register 11, .namehandle 0x1000001 (named [98]) fun _ => ⟨named [], 5⟩,
    .namehandle 0x1000002 (named [97, 99]) fun _ => ⟨named [], 5⟩,
    .namehandle 0x1000001 (named [97]) fun _ => ⟨named [], 5⟩]

/-- When the first service is retired, its two names go. -/
theorem service_names_retired :
    ∃ s, Lts.run Names.step (Names.init 1 fun _ => ⟨named [7], 7⟩) (namedOps ++ [NameOp.retire 0x1000001]) = some s ∧
      s.array.nameCount = 1 ∧ skynetHandleFindname s.array (named [97, 99]) = 0x1000002 ∧
      skynetHandleFindname s.array (named [98]) = 0 := by
  obtain ⟨s, hrun, -, hs⟩ := Lts.of_check (g := fun _ _ => true) (G := fun _ _ => True) (fun _ _ _ => trivial)
    (show Lts.check Names.step (fun _ _ => true)
        (fun s => s.array.nameCount == 1 && s.bound (named [97, 99]) == some 0x1000002 && s.bound (named [98]) == none)
        (Names.init 1 fun _ => ⟨named [7], 7⟩) (namedOps ++ [NameOp.retire 0x1000001]) = true by decide +kernel)
  simp only [Bool.and_eq_true, beq_iff_eq] at hs
  obtain ⟨-, -, hfind, -⟩ := service_names 1 _ _ s hrun
  refine ⟨s, hrun, hs.1.1, ?_, ?_⟩
  · rw [hfind, hs.1.2]
    rfl
  · rw [hfind, hs.2]
    rfl

end Handle
end Skynet
