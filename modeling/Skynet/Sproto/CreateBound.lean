import Skynet.Lib.Outcome
import Skynet.Sproto.Import

/-!
# Skynet.Sproto.CreateBound

`sproto_create` on any bytes.

* `Layout` : the parts of a schema, each cut out of the part it lies in, with the reason where the reading ends.
* `Answers` : what `sproto_create` makes of a part is what is read of it.
* `create_checked` : where no length wraps around, the importers stay in the input and what they build is in order,
  unless an item of an array takes no bytes or a type has an array of no fields.
-/

namespace Skynet
namespace Sproto

/-! ### The parts of a schema -/

namespace Layout

/-- Why the reading ends. -/
inductive Reason where
  | refused
  /-- A length to which 4 is added in 32 bits with a carry. -/
  | wraps
  /-- An item of an array that takes 0 bytes in 32 bits. -/
  | still
  /-- A type with an array of no fields. -/
  | hollow
deriving Repr, DecidableEq

/-- Bytes behind their length, and what is left. -/
def block (bs : Bytes) : Except Reason (Bytes × Bytes) :=
  if bs.length < SIZEOF_LENGTH then .error .refused
  else
    let sz := Endian.ofLe (bs.take SIZEOF_LENGTH)
    if 2 ^ 32 ≤ sz + SIZEOF_LENGTH then .error .wraps
    else if bs.length < sz + SIZEOF_LENGTH then .error .refused
    else .ok ((bs.drop SIZEOF_LENGTH).take sz, bs.drop (sz + SIZEOF_LENGTH))

/-- The items of an array. -/
def items : Nat → Bytes → Except Reason (List Bytes)
  | 0, _ => .ok []
  | fuel + 1, bs =>
    if bs.isEmpty then .ok []
    else if SIZEOF_LENGTH ≤ bs.length ∧ Endian.ofLe (bs.take SIZEOF_LENGTH) + SIZEOF_LENGTH = 2 ^ 32 then .error .still
    else do
      let (d, bs) ← block bs
      let ds ← items fuel bs
      .ok (d :: ds)

def values : Nat → Bytes → List Nat
  | 0, _ => []
  | n + 1, bs => Endian.ofLe (bs.take SIZEOF_FIELD) :: values n (bs.drop SIZEOF_FIELD)

/-- The data of the values that are 0. -/
def datas : List Nat → Bytes → Except Reason (List Bytes)
  | [], _ => .ok []
  | v :: vs, bs =>
    if v ≠ 0 then datas vs bs
    else do
      let (d, bs) ← block bs
      let ds ← datas vs bs
      .ok (d :: ds)

/-- The values of a struct and its data. -/
def struct (bs : Bytes) : Except Reason (List Nat × List Bytes) :=
  if bs.length < SIZEOF_LENGTH then .error .refused
  else
    let fn := Endian.ofLe (bs.take SIZEOF_HEADER)
    if bs.length < SIZEOF_HEADER + SIZEOF_FIELD * fn then .error .refused
    else do
      let vs := values fn (bs.drop SIZEOF_HEADER)
      let ds ← datas vs (bs.drop (SIZEOF_HEADER + SIZEOF_FIELD * fn))
      .ok (vs, ds)

def ofOption {α : Type} : Option α → Except Reason α
  | none => .error .refused
  | some a => .ok a

def field (type_n : Nat) (bs : Bytes) : Except Reason Field := do
  let (vs, ds) ← struct bs
  ofOption ((readValues type_n (ds.headD []) vs 0
    { tag := none, type := none, array := false, name := none, key := -1 }).bind FieldRead.field)

/-- Fields with ascending tags. -/
def fields (type_n : Nat) : Int → List Bytes → Except Reason (List Field)
  | _, [] => .ok []
  | last, d :: ds => do
    let f ← field type_n d
    if f.tag ≤ last then .error .refused
    else do
      let fs ← fields type_n f.tag ds
      .ok (f :: fs)

def type (type_n : Nat) (bs : Bytes) : Except Reason (Bytes × SprotoType) := do
  let (vs, ds) ← struct bs
  if vs.length = 0 ∨ 2 < vs.length then .error .refused
  else if vs.any (· ≠ 0) then .error .refused
  else if vs.length = 1 then .ok (ds.headD [], { base := 0, maxn := 0, f := [] })
  else do
    let body := ds.getD 1 []
    let its ← items (body.length + 1) body
    if its = [] then .error .hollow
    else do
      let fs ← fields type_n (-1) its
      let st ← ofOption (importType fs)
      .ok (ds.headD [], st)

def protocol (type_n : Nat) (bs : Bytes) : Except Reason Protocol := do
  let (vs, ds) ← struct bs
  ofOption ((readProtocol type_n (ds.headD []) vs 0
    { name := none, tag := none, request := none, response := none }).bind ProtocolRead.protocol)

/-- The arrays of a schema. -/
def sections : List Nat → List Bytes → Except Reason (List (List Bytes))
  | [], _ => .ok []
  | v :: vs, ds =>
    if v ≠ 0 then .error .refused
    else do
      let body := ds.headD []
      let its ← items (body.length + 1) body
      let ss ← sections vs ds.tail
      .ok (its :: ss)

def bundle (bs : Bytes) : Except Reason Bundle := do
  let (vs, ds) ← struct bs
  if 2 < vs.length then .error .refused
  else do
    let ss ← sections vs ds
    let types := ss.getD 0 []
    let type ← types.mapM (type types.length)
    let proto ← (ss.getD 1 []).mapM (protocol types.length)
    .ok { type := type, proto := proto }

/-! ### The bytes of the parts -/

theorem block_ok {bs d rest : Bytes} (h : block bs = .ok (d, rest)) : bs = filled d ++ rest ∧ d.length + 4 < 2 ^ 32 := by
  have h4 : SIZEOF_LENGTH = 4 := rfl
  unfold block at h
  split at h
  · cases h
  rename_i hlen
  simp only at h
  split at h
  · cases h
  rename_i hwrap
  split at h
  · cases h
  rename_i hroom
  obtain ⟨rfl, rfl⟩ := Prod.mk.inj (Except.ok.inj h)
  have hd : ((bs.drop SIZEOF_LENGTH).take (Endian.ofLe (bs.take SIZEOF_LENGTH))).length = Endian.ofLe (bs.take SIZEOF_LENGTH) := by
    rw [List.length_take, List.length_drop]
    omega
  have hle : Endian.le SIZEOF_LENGTH (Endian.ofLe (bs.take SIZEOF_LENGTH)) = bs.take SIZEOF_LENGTH := by
    have := Endian.le_ofLe (bs.take SIZEOF_LENGTH)
    rwa [List.length_take, Nat.min_eq_left (by omega)] at this
  refine ⟨?_, by omega⟩
  rw [filled, hd, hle, Nat.add_comm _ SIZEOF_LENGTH, ← List.drop_drop, List.append_assoc, List.take_append_drop,
    List.take_append_drop]

theorem items_ok {fuel : Nat} {bs : Bytes} {ds : List Bytes} (hfuel : bs.length < fuel) (h : items fuel bs = .ok ds) :
    bs = ds.flatMap filled ∧ ∀ d ∈ ds, d.length + 4 < 2 ^ 32 := by
  induction fuel generalizing bs ds with
  | zero => omega
  | succ fuel ih =>
    unfold items at h
    split at h
    · rename_i hnil
      cases h
      exact ⟨by simpa using hnil, by simp⟩
    split at h
    · cases h
    obtain ⟨⟨d, rest⟩, hb, h⟩ := Outcome.ok_of_bind h
    obtain ⟨ds', hr, h⟩ := Outcome.ok_of_bind h
    cases h
    obtain ⟨hbs, hd⟩ := block_ok hb
    have hlen := congrArg List.length hbs
    rw [List.length_append, filled_length] at hlen
    obtain ⟨hrest, hds⟩ := ih (by omega) hr
    exact ⟨by rw [hbs, hrest, List.flatMap_cons], by simpa using ⟨hd, hds⟩⟩

theorem datas_ok {vs : List Nat} {bs : Bytes} {ds : List Bytes} (h : datas vs bs = .ok ds) :
    (∃ rest, bs = ds.flatMap filled ++ rest) ∧ ds.length = vs.count 0 ∧ ∀ d ∈ ds, d.length + 4 < 2 ^ 32 := by
  induction vs generalizing bs ds with
  | nil =>
    cases h
    exact ⟨⟨bs, rfl⟩, rfl, by simp⟩
  | cons v vs ih =>
    unfold datas at h
    split at h
    · rename_i hne
      obtain ⟨hbs, hlen, hds⟩ := ih h
      exact ⟨hbs, by rw [hlen, List.count_cons_of_ne hne], hds⟩
    · rename_i hzero
      rw [not_not] at hzero
      obtain ⟨⟨d, rest⟩, hb, h⟩ := Outcome.ok_of_bind h
      obtain ⟨ds', hr, h⟩ := Outcome.ok_of_bind h
      cases h
      obtain ⟨hbs, hd⟩ := block_ok hb
      obtain ⟨⟨tail, hrest⟩, hlen, hds⟩ := ih hr
      refine ⟨⟨tail, by rw [hbs, hrest, List.flatMap_cons, List.append_assoc]⟩, ?_, by simpa using ⟨hd, hds⟩⟩
      rw [hzero, List.count_cons_self, List.length_cons, hlen]

theorem values_spec {n : Nat} {bs : Bytes} (h : 2 * n ≤ bs.length) :
    (values n bs).length = n ∧ (values n bs).flatMap (Endian.le 2) = bs.take (2 * n) ∧ ∀ v ∈ values n bs, v < 2 ^ 16 := by
  have h2 : SIZEOF_FIELD = 2 := rfl
  induction n generalizing bs with
  | zero => simp [values]
  | succ n ih =>
    have hlen : (bs.drop 2).length = bs.length - 2 := List.length_drop ..
    obtain ⟨hl, hbytes, hlt⟩ := ih (show 2 * n ≤ (bs.drop 2).length by omega)
    have htake : (bs.take 2).length = 2 := by rw [List.length_take]; omega
    have hle := Endian.le_ofLe (bs.take 2)
    have hv := Endian.ofLe_lt (bs.take 2)
    rw [htake] at hle hv
    rw [values, h2]
    refine ⟨by rw [List.length_cons, hl], ?_, by simpa using ⟨hv, hlt⟩⟩
    rw [List.flatMap_cons, hle, hbytes, show 2 * (n + 1) = 2 + 2 * n by omega, List.take_add]

/-- A struct: its values and its data, and any bytes behind them. -/
structure StructOk (bs : Bytes) (vs : List Nat) (ds : List Bytes) : Prop where
  bytes : ∃ rest, bs = message vs ds ++ rest
  count : vs.length < 2 ^ 16
  values : ∀ v ∈ vs, v < 2 ^ 16
  datas : ds.length = vs.count 0
  sizes : ∀ d ∈ ds, d.length + 4 < 2 ^ 32

theorem struct_ok {bs : Bytes} {vs : List Nat} {ds : List Bytes} (h : struct bs = .ok (vs, ds)) : StructOk bs vs ds := by
  have h2 : SIZEOF_HEADER = 2 := rfl
  have h2' : SIZEOF_FIELD = 2 := rfl
  unfold struct at h
  split at h
  · cases h
  rename_i hlen
  have hlen : 4 ≤ bs.length := Nat.not_lt.mp hlen
  simp only at h
  split at h
  · cases h
  rename_i hroom
  obtain ⟨ds', hd, h⟩ := Outcome.ok_of_bind h
  cases h
  have htake : (bs.take SIZEOF_HEADER).length = 2 := by rw [List.length_take]; omega
  have hle := Endian.le_ofLe (bs.take SIZEOF_HEADER)
  have hfn := Endian.ofLe_lt (bs.take SIZEOF_HEADER)
  rw [htake] at hle hfn
  generalize Endian.ofLe (bs.take SIZEOF_HEADER) = fn at *
  rw [h2, h2'] at *
  obtain ⟨hn, hbytes, hlt⟩ := values_spec (show 2 * fn ≤ (bs.drop 2).length by rw [List.length_drop]; omega)
  obtain ⟨⟨rest, hrest⟩, hcount, hds⟩ := datas_ok hd
  refine ⟨⟨rest, ?_⟩, by rw [hn]; exact hfn, hlt, hcount, hds⟩
  rw [message, hn, hle, hbytes, List.append_assoc, ← hrest, List.append_assoc, ← List.drop_drop, List.take_append_drop,
    List.take_append_drop]

end Layout

open Layout (Reason)

/-! ### The importers -/

/-- A part that is read is imported as `R` tells. A part that is refused is refused; where an item takes no bytes the loop
does not end, and an array of no fields is read outside. Nothing is said where a length wraps around. -/
def Answers {α β : Type} (R : α → β → Prop) : Except Reason α → Except Fault (Option β) → Prop
  | .ok a, x => ∃ b, x = .ok (some b) ∧ R a b
  | .error .refused, x => x = .ok none
  | .error .wraps, _ => True
  | .error .still, x => x = .error .fuel
  | .error .hollow, x => x = .error .beyond

section Answers

variable {α β γ δ : Type} {R : α → β → Prop} {S : γ → δ → Prop}

theorem Answers.bind {y : Except Reason α} {x : Except Fault (Option β)} {g : α → Except Reason γ}
    {f : Option β → Except Fault (Option δ)} (h : Answers R y x) (hnone : f none = .ok none)
    (hsome : ∀ a b, y = .ok a → R a b → Answers S (g a) (f (some b))) : Answers S (y >>= g) (x >>= f) := by
  cases y with
  | ok a =>
    obtain ⟨b, rfl, hR⟩ := h
    exact hsome a b rfl hR
  | error e =>
    cases e with
    | wraps => trivial
    | refused =>
      cases h
      exact hnone
    | still | hollow =>
      cases h
      rfl

/-- What is made of the part alone. -/
theorem Answers.left {S : γ → β → Prop} {y : Except Reason α} {x : Except Fault (Option β)} {g : α → Except Reason γ}
    (h : Answers R y x) (hg : ∀ a b, y = .ok a → R a b → ∃ c, g a = .ok c ∧ S c b) : Answers S (y >>= g) x := by
  cases y with
  | ok a =>
    obtain ⟨b, rfl, hR⟩ := h
    obtain ⟨c, hc, hS⟩ := hg a b rfl hR
    change Answers S (g a) _
    rw [hc]
    exact ⟨b, rfl, hS⟩
  | error e => cases e <;> exact h

end Answers

variable {buf : Bytes}

theorem Holds.drop {off k : Nat} {bs : Bytes} (h : Holds buf off bs) (hk : k ≤ bs.length) : Holds buf (off + k) (bs.drop k) := by
  rw [← List.take_append_drop k bs] at h
  have := h.right
  rwa [List.length_take, Nat.min_eq_left hk] at this

theorem Holds.readLe {off k : Nat} {bs : Bytes} (h : Holds buf off bs) (hpos : 0 < k) (hk : k ≤ bs.length) :
    readLe buf k off = .ok (Endian.ofLe (bs.take k)) := by
  rw [← List.take_append_drop k bs] at h
  have hlen : (bs.take k).length = k := by rw [List.length_take, Nat.min_eq_left hk]
  have hread := readLe_bytes h.left (by omega)
  rwa [hlen] at hread

theorem countLoop_still {stream length : Nat} (hlen : 4 ≤ length) (h : todword buf stream = .ok (2 ^ 32 - 4)) (fuel n : Nat) :
    countLoop buf fuel stream length n = .error .fuel := by
  induction fuel generalizing n with
  | zero => rfl
  | succ fuel ih =>
    have h4 : SIZEOF_LENGTH = 4 := rfl
    rw [countLoop, if_pos (by omega), if_neg (by omega), h]
    simp only [bind, Except.bind]
    rw [if_neg (by rw [h4]; omega)]
    exact ih (n + 1)

theorem countLoop_answers (fuel : Nat) {stream : Nat} {bs : Bytes} (n : Nat) (h : Holds buf stream bs)
    (hfuel : bs.length < fuel) :
    Answers (fun ds m => m = n + ds.length) (Layout.items fuel bs) (countLoop buf fuel stream bs.length n) := by
  have h4 : SIZEOF_LENGTH = 4 := rfl
  induction fuel generalizing stream bs n with
  | zero => omega
  | succ fuel ih =>
    cases bs with
    | nil => exact ⟨n, rfl, rfl⟩
    | cons b bs' =>
      generalize hbs : b :: bs' = bs at *
      have hpos : 0 < bs.length := by rw [← hbs]; exact Nat.succ_pos _
      have hne : bs.isEmpty = false := by rw [← hbs]; rfl
      rw [Layout.items, if_neg (by rw [hne]; decide)]
      by_cases hshort : bs.length < SIZEOF_LENGTH
      · rw [if_neg (by omega), Layout.block, if_pos hshort, countLoop, if_pos hpos, if_pos hshort]
        rfl
      have hread : todword buf stream = .ok (Endian.ofLe (bs.take SIZEOF_LENGTH)) := h.readLe (by decide) (by omega)
      by_cases hstill : Endian.ofLe (bs.take SIZEOF_LENGTH) + SIZEOF_LENGTH = 2 ^ 32
      · rw [if_pos ⟨by omega, hstill⟩]
        refine countLoop_still (by omega) ?_ (fuel + 1) n
        rw [hread, show Endian.ofLe (bs.take SIZEOF_LENGTH) = 2 ^ 32 - 4 by omega]
      rw [if_neg (by omega), Layout.block, if_neg hshort, countLoop, if_pos hpos, if_neg hshort, hread]
      simp only [bind, Except.bind]
      by_cases hwraps : 2 ^ 32 ≤ Endian.ofLe (bs.take SIZEOF_LENGTH) + SIZEOF_LENGTH
      · rw [if_pos hwraps]
        trivial
      rw [if_neg hwraps, Nat.mod_eq_of_lt (by omega)]
      by_cases hroom : bs.length < Endian.ofLe (bs.take SIZEOF_LENGTH) + SIZEOF_LENGTH
      · rw [if_pos hroom, if_pos hroom]
        rfl
      rw [if_neg hroom, if_neg hroom]
      have hrest := ih (n + 1) (h.drop (Nat.not_lt.mp hroom)) (by rw [List.length_drop]; omega)
      rw [List.length_drop] at hrest
      refine hrest.left fun ds m _ hm => ⟨_, rfl, ?_⟩
      rw [hm, List.length_cons]
      omega

theorem countArray_answers {stream : Nat} {d : Bytes} (h : Holds buf stream (filled d)) (hd : d.length + 4 < 2 ^ 32) :
    Answers (fun ds n => n = ds.length) (Layout.items (d.length + 1) d) (countArray buf stream) := by
  rw [countArray, h.filled_size (by omega)]
  have hloop := countLoop_answers (d.length + 1) 0 h.filled_body (Nat.lt_succ_self _)
  simp only [Nat.zero_add] at hloop
  exact hloop

theorem structLoop_answers {vs : List Nat} {field stream : Nat} {bs : Bytes} (fn : Nat) (hvs : ∀ v ∈ vs, v < 2 ^ 16)
    (hvalues : Holds buf field (vs.flatMap (Endian.le 2))) (h : Holds buf stream bs) :
    Answers (fun _ n => n = fn) (Layout.datas vs bs)
      (structLoop buf vs.length field stream bs.length >>= fun ok => .ok (if ok then some fn else none)) := by
  have h4 : SIZEOF_LENGTH = 4 := rfl
  induction vs generalizing field stream bs with
  | nil => exact ⟨fn, rfl, rfl⟩
  | cons v vs ih =>
    rw [List.flatMap_cons] at hvalues
    have hrest : Holds buf (field + SIZEOF_FIELD) (vs.flatMap (Endian.le 2)) := Endian.le_length 2 v ▸ hvalues.right
    have hvs' : ∀ w ∈ vs, w < 2 ^ 16 := fun w hw => hvs w (List.mem_cons_of_mem _ hw)
    rw [List.length_cons, structLoop, toword_holds hvalues.left (hvs v (List.mem_cons_self ..)), Layout.datas]
    by_cases hzero : v = 0
    · rw [if_neg (not_not.mpr hzero)]
      simp only [bind, Except.bind]
      rw [if_neg (not_not.mpr hzero), Layout.block]
      by_cases hshort : bs.length < SIZEOF_LENGTH
      · rw [if_pos hshort, if_pos hshort]
        rfl
      have hread : todword buf stream = .ok (Endian.ofLe (bs.take SIZEOF_LENGTH)) := h.readLe (by decide) (by omega)
      rw [if_neg hshort, if_neg hshort, hread]
      simp only
      by_cases hwraps : 2 ^ 32 ≤ Endian.ofLe (bs.take SIZEOF_LENGTH) + SIZEOF_LENGTH
      · rw [if_pos hwraps]
        trivial
      rw [if_neg hwraps, Nat.add_comm SIZEOF_LENGTH, Nat.mod_eq_of_lt (by omega)]
      by_cases hroom : bs.length < Endian.ofLe (bs.take SIZEOF_LENGTH) + SIZEOF_LENGTH
      · rw [if_pos hroom, if_pos hroom]
        rfl
      rw [if_neg hroom, if_neg hroom]
      have hnext := ih hvs' hrest (h.drop (Nat.not_lt.mp hroom))
      rw [List.length_drop] at hnext
      exact hnext.left fun ds n _ hn => ⟨_, rfl, hn⟩
    · rw [if_pos hzero]
      simp only [bind, Except.bind]
      rw [if_pos hzero]
      exact ih hvs' hrest h

theorem structField_answers {stream : Nat} {bs : Bytes} (h : Holds buf stream bs) :
    Answers (fun p n => n = p.1.length) (Layout.struct bs) (structField buf stream bs.length) := by
  have h2 : SIZEOF_HEADER = 2 := rfl
  have h4 : SIZEOF_LENGTH = 4 := rfl
  unfold structField Layout.struct
  by_cases hshort : bs.length < SIZEOF_LENGTH
  · rw [if_pos hshort, if_pos hshort]
    rfl
  have hread : toword buf stream = .ok (Endian.ofLe (bs.take SIZEOF_HEADER)) := h.readLe (by decide) (by omega)
  rw [if_neg hshort, if_neg hshort, hread]
  simp only [bind, Except.bind]
  generalize Endian.ofLe (bs.take SIZEOF_HEADER) = fn
  have hF : SIZEOF_FIELD * fn = 2 * fn := rfl
  by_cases hroom : bs.length < SIZEOF_HEADER + SIZEOF_FIELD * fn
  · rw [if_pos hroom, if_pos hroom]
    rfl
  rw [if_neg hroom, if_neg hroom]
  have hvalues := h.drop (k := SIZEOF_HEADER) (by omega)
  obtain ⟨hn, hbytes, hlt⟩ := Layout.values_spec (show 2 * fn ≤ (bs.drop SIZEOF_HEADER).length by rw [List.length_drop]; omega)
  rw [← List.take_append_drop (2 * fn) (bs.drop SIZEOF_HEADER), ← hbytes] at hvalues
  have hloop := structLoop_answers fn hlt hvalues.left (h.drop (Nat.not_lt.mp hroom))
  rw [List.length_drop, hn] at hloop
  exact hloop.left fun ds n _ hn' => ⟨_, rfl, hn'.trans hn.symm⟩

/-- Where the values and the data of a struct are. -/
theorem Layout.StructOk.parts {stream : Nat} {bs : Bytes} {vs : List Nat} {ds : List Bytes} (hok : StructOk bs vs ds)
    (h : Holds buf stream bs) :
    Holds buf (stream + SIZEOF_HEADER) (vs.flatMap (Endian.le 2)) ∧
      Holds buf (stream + SIZEOF_HEADER + vs.length * SIZEOF_FIELD) (ds.flatMap filled) := by
  obtain ⟨rest, hbytes⟩ := hok.bytes
  rw [hbytes] at h
  exact h.left.message.2

/-- The name of a part is its first data. -/
theorem Layout.StructOk.name {stream : Nat} {bs : Bytes} {vs : List Nat} {ds : List Bytes} (hok : StructOk bs vs ds)
    (h : Holds buf stream bs) (hzero : 0 ∈ vs) :
    importString buf (stream + SIZEOF_HEADER + vs.length * SIZEOF_FIELD) = .ok (ds.headD []) := by
  have hcount := List.count_pos_iff.mpr hzero
  cases ds with
  | nil => rw [← hok.datas] at hcount; cases hcount
  | cons d ds =>
    have hdatas := (hok.parts h).2
    rw [List.flatMap_cons] at hdatas
    have := hok.sizes d (List.mem_cons_self ..)
    exact importString_holds hdatas.left (show d.length < 2 ^ 32 by omega)

section Items

variable {type_n off : Nat} {d : Bytes}

theorem answers_ofOption {α β : Type} (o : Option α) (g : α → β) :
    Answers (fun a b => b = g a) (Layout.ofOption o) (.ok (o.map g)) := by
  cases o with
  | none => rfl
  | some a => exact ⟨g a, rfl, rfl⟩

theorem importField_answers (h : Holds buf off (filled d)) (hd : d.length + 4 < 2 ^ 32) :
    Answers (fun f p => p = (f, off + (filled d).length)) (Layout.field type_n d) (importField buf type_n off) := by
  have h4 : SIZEOF_LENGTH = 4 := rfl
  have hbody := h.filled_body
  unfold importField Layout.field
  rw [h.filled_size (by omega)]
  change Answers _ (Layout.struct d >>= _) (structField buf (off + SIZEOF_LENGTH) d.length >>= _)
  refine (structField_answers hbody).bind rfl fun p fn hstruct hfn => ?_
  obtain ⟨vs, ds⟩ := p
  have hok := Layout.struct_ok hstruct
  simp only at hfn ⊢
  rw [hfn, importFieldLoop_values hok.values (hok.parts hbody).1 (hok.name hbody)]
  simp only [bind, Except.bind]
  cases hread : readValues type_n (ds.headD []) vs 0
      { tag := none, type := none, array := false, name := none, key := -1 } with
  | none => rfl
  | some f =>
    rw [Option.bind_some, filled_length, Nat.add_comm d.length, ← Nat.add_assoc]
    exact answers_ofOption f.field fun f => (f, off + 4 + d.length)

theorem importProtocol_answers (h : Holds buf off (filled d)) (hd : d.length + 4 < 2 ^ 32) :
    Answers (fun q p => p = (q, off + (filled d).length)) (Layout.protocol type_n d) (importProtocol buf type_n off) := by
  have hbody := h.filled_body
  unfold importProtocol Layout.protocol
  rw [h.filled_size (by omega)]
  change Answers _ (Layout.struct d >>= _) (structField buf (off + SIZEOF_LENGTH) d.length >>= _)
  refine (structField_answers hbody).bind rfl fun p fn hstruct hfn => ?_
  obtain ⟨vs, ds⟩ := p
  have hok := Layout.struct_ok hstruct
  simp only at hfn ⊢
  rw [hfn, Option.getD_some, importProtocolLoop_values hok.values (hok.parts hbody).1 (hok.name hbody)]
  simp only [bind, Except.bind]
  cases readProtocol type_n (ds.headD []) vs 0 { name := none, tag := none, request := none, response := none } with
  | none => rfl
  | some p =>
    rw [Option.bind_some, filled_length, Nat.add_comm d.length, ← Nat.add_assoc]
    exact answers_ofOption p.protocol fun p => (p, off + 4 + d.length)

theorem importFieldsLoop_answers {ds : List Bytes} {stream : Nat} {last : Int} (maxn : Nat) (acc : List Field)
    (h : Holds buf stream (ds.flatMap filled)) (hds : ∀ d ∈ ds, d.length + 4 < 2 ^ 32) :
    Answers (fun fs p => p.1 = acc ++ fs ∧ importFields maxn last fs = some p.2) (Layout.fields type_n last ds)
      (importFieldsLoop buf type_n ds.length stream last maxn acc) := by
  induction ds generalizing stream last maxn acc with
  | nil => exact ⟨_, rfl, by simp, rfl⟩
  | cons d ds ih =>
    rw [List.flatMap_cons] at h
    rw [List.length_cons, importFieldsLoop, Layout.fields]
    refine (importField_answers h.left (hds d (List.mem_cons_self ..))).bind rfl fun f p _ hp => ?_
    rw [hp]
    simp only
    by_cases hle : (f.tag : Int) ≤ last
    · rw [if_pos hle, if_pos hle]
      rfl
    rw [if_neg hle, if_neg hle]
    refine (ih (if last + 1 < f.tag then maxn + 1 else maxn) (acc ++ [f]) h.right
      fun e he => hds e (List.mem_cons_of_mem _ he)).left fun fs q _ hq => ⟨_, rfl, ?_, ?_⟩
    · rw [hq.1, List.append_assoc]
      rfl
    · rw [importFields, if_neg hle]
      exact hq.2

theorem fields_len {ds : List Bytes} {last : Int} {fs : List Field} (h : Layout.fields type_n last ds = .ok fs) :
    fs.length = ds.length := by
  induction ds generalizing last fs with
  | nil => cases h; rfl
  | cons d ds ih =>
    obtain ⟨f, -, h⟩ := Outcome.ok_of_bind h
    split at h
    · cases h
    · obtain ⟨fs', hfs, h⟩ := Outcome.ok_of_bind h
      cases h
      rw [List.length_cons, List.length_cons, ih hfs]

theorem allZero_eq {vs : List Nat} {at_ : Nat} (hvs : ∀ v ∈ vs, v < 2 ^ 16) (h : Holds buf at_ (vs.flatMap (Endian.le 2))) :
    allZero buf vs.length at_ = .ok (!vs.any (· ≠ 0)) := by
  induction vs generalizing at_ with
  | nil => rfl
  | cons v vs ih =>
    rw [List.flatMap_cons] at h
    have hrest : Holds buf (at_ + SIZEOF_FIELD) (vs.flatMap (Endian.le 2)) := Endian.le_length 2 v ▸ h.right
    rw [List.length_cons, allZero, toword_holds h.left (hvs v (List.mem_cons_self ..)), List.any_cons]
    simp only [bind, Except.bind]
    by_cases hzero : v = 0
    · rw [if_neg (not_not.mpr hzero), ih (fun w hw => hvs w (List.mem_cons_of_mem _ hw)) hrest]
      simp [hzero]
    · rw [if_pos hzero]
      simp [hzero]

theorem importTypeAt_answers (h : Holds buf off (filled d)) (hd : d.length + 4 < 2 ^ 32) :
    Answers (fun t p => p = (t, off + (filled d).length)) (Layout.type type_n d) (importTypeAt buf type_n off) := by
  have h4 : SIZEOF_LENGTH = 4 := rfl
  have hbody := h.filled_body
  have hend : off + SIZEOF_LENGTH + d.length = off + (filled d).length := by rw [filled_length]; omega
  unfold importTypeAt Layout.type
  rw [h.filled_size (by omega)]
  change Answers _ (Layout.struct d >>= _) (structField buf (off + SIZEOF_LENGTH) d.length >>= _)
  refine (structField_answers hbody).bind rfl fun p fn hstruct hfn => ?_
  obtain ⟨vs, ds⟩ := p
  have hok := Layout.struct_ok hstruct
  obtain ⟨hvalues, hdatas⟩ := hok.parts hbody
  simp only at hfn ⊢
  subst hfn
  by_cases hcount : vs.length = 0 ∨ 2 < vs.length
  · rw [if_pos hcount, if_pos hcount]
    rfl
  rw [if_neg hcount, if_neg hcount, allZero_eq hok.values hvalues]
  simp only [bind, Except.bind]
  cases hany : vs.any (· ≠ 0) with
  | true => rfl
  | false =>
    have hvs : vs = List.replicate vs.length 0 := List.eq_replicate_of_mem (by simpa using hany)
    rcases (show vs.length = 1 ∨ vs.length = 2 by omega) with hlen | hlen
    · obtain rfl : vs = [0] := by rw [hvs, hlen]; rfl
      rw [hok.name hbody (List.mem_cons_self ..), hend]
      exact ⟨_, rfl, rfl⟩
    · obtain rfl : vs = [0, 0] := by rw [hvs, hlen]; rfl
      rw [hok.name hbody (List.mem_cons_self ..), hend]
      obtain ⟨name, body, rfl⟩ : ∃ name body, ds = [name, body] := List.length_eq_two.mp hok.datas
      have hname := hok.sizes name (by simp)
      have hsize := hok.sizes body (by simp)
      rw [List.flatMap_cons, List.flatMap_singleton] at hdatas
      have hfields := hdatas.right
      rw [filled_length] at hfields
      rw [hdatas.left.filled_size (by omega)]
      simp only [h4, Nat.mod_eq_of_lt hname, List.length_cons, List.length_nil]
      refine (countArray_answers hfields hsize).bind rfl fun its n hits hn => ?_
      obtain ⟨hbody', hsizes⟩ := Layout.items_ok (Nat.lt_succ_self _) hits
      have hitems : Holds buf (off + 4 + SIZEOF_HEADER + 2 * SIZEOF_FIELD + (name.length + 4) + SIZEOF_LENGTH)
          (its.flatMap filled) := hbody' ▸ hfields.filled_body
      subst hn
      cases its with
      | nil => rfl
      | cons e its =>
        rw [if_neg (List.cons_ne_nil e its)]
        simp only
        rw [if_neg (show ¬ (e :: its).length = 0 from Nat.succ_ne_zero _)]
        refine (importFieldsLoop_answers (e :: its).length [] hitems hsizes).bind rfl fun fs p hfs hp => ?_
        rw [List.nil_append, ← fields_len hfs] at hp
        obtain ⟨rfl, hmax⟩ := hp
        rw [importType, hmax]
        exact ⟨_, rfl, rfl⟩

end Items

/-! ### The schema -/

/-- A loop over the items of an array. -/
theorem importItems_answers {α : Type} {item : Nat → Except Fault (Option (α × Nat))} {rd : Bytes → Except Reason α}
    (hitem : ∀ off d, Holds buf off (filled d) → d.length + 4 < 2 ^ 32 →
      Answers (fun a p => p = (a, off + (filled d).length)) (rd d) (item off))
    {ds : List Bytes} {stream : Nat} (acc : List α) (h : Holds buf stream (ds.flatMap filled))
    (hds : ∀ d ∈ ds, d.length + 4 < 2 ^ 32) :
    Answers (fun xs ys => ys = acc ++ xs) (ds.mapM rd) (importItems item ds.length stream acc) := by
  induction ds generalizing stream acc with
  | nil => exact ⟨acc, rfl, by simp⟩
  | cons d ds ih =>
    rw [List.flatMap_cons] at h
    rw [List.length_cons, importItems, List.mapM_cons]
    refine (hitem stream d h.left (hds d (List.mem_cons_self ..))).bind rfl fun a p _ hp => ?_
    subst hp
    refine (ih (acc ++ [a]) h.right fun e he => hds e (List.mem_cons_of_mem _ he)).left fun xs ys _ hys => ⟨_, rfl, ?_⟩
    rw [hys, List.append_assoc]
    rfl

/-- The arrays as they are counted. -/
structure SectionsOk (buf : Bytes) (ss : List (List Bytes)) (s : Sections) : Prop where
  type_n : s.type_n = (ss.getD 0 []).length
  typedata : Holds buf s.typedata ((ss.getD 0 []).flatMap filled)
  typeSizes : ∀ d ∈ ss.getD 0 [], d.length + 4 < 2 ^ 32
  protocol_n : s.protocol_n = (ss.getD 1 []).length
  protocoldata : Holds buf s.protocoldata ((ss.getD 1 []).flatMap filled)
  protocolSizes : ∀ d ∈ ss.getD 1 [], d.length + 4 < 2 ^ 32

/-- The data of the first value that is 0. -/
theorem head_holds {v : Nat} {vs : List Nat} {ds : List Bytes} {content : Nat} (hzero : v = 0)
    (hcount : ds.length = (v :: vs).count 0) (h : Holds buf content (ds.flatMap filled)) (hds : ∀ d ∈ ds, d.length + 4 < 2 ^ 32) :
    Holds buf content (filled (ds.headD [])) ∧ (ds.headD []).length + 4 < 2 ^ 32 ∧ ds.tail.length = vs.count 0 ∧
      Holds buf (content + (filled (ds.headD [])).length) (ds.tail.flatMap filled) ∧ ∀ d ∈ ds.tail, d.length + 4 < 2 ^ 32 := by
  rw [hzero, List.count_cons_self] at hcount
  cases ds with
  | nil => cases hcount
  | cons d ds =>
    rw [List.flatMap_cons] at h
    exact ⟨h.left, hds d (List.mem_cons_self ..), Nat.succ.inj hcount, h.right, fun e he => hds e (List.mem_cons_of_mem _ he)⟩

/-- One array. -/
theorem sectionsLoop_cons {R : List (List Bytes) → Sections → Prop} {v i at_ content : Nat} {vs : List Nat} {ds : List Bytes}
    (s : Sections) (hvalue : toword buf at_ = .ok v) (hcount : ds.length = (v :: vs).count 0)
    (h : Holds buf content (ds.flatMap filled)) (hds : ∀ d ∈ ds, d.length + 4 < 2 ^ 32)
    (hrest : ∀ its, v = 0 → Holds buf (content + SIZEOF_LENGTH) (its.flatMap filled) → (∀ e ∈ its, e.length + 4 < 2 ^ 32) →
      Answers (fun ss s' => R (its :: ss) s') (Layout.sections vs ds.tail)
        (sectionsLoop buf vs.length (i + 1) (at_ + SIZEOF_FIELD) (content + (filled (ds.headD [])).length)
          (if i = 0 then { s with type_n := its.length, typedata := content + SIZEOF_LENGTH }
            else { s with protocol_n := its.length, protocoldata := content + SIZEOF_LENGTH }))) :
    Answers R (Layout.sections (v :: vs) ds) (sectionsLoop buf (v :: vs).length i at_ content s) := by
  rw [List.length_cons, sectionsLoop, Layout.sections, hvalue]
  simp only [bind, Except.bind]
  by_cases hzero : v = 0
  · obtain ⟨hd, hlen, -⟩ := head_holds hzero hcount h hds
    rw [if_neg (not_not.mpr hzero), if_neg (not_not.mpr hzero)]
    refine (countArray_answers hd hlen).bind rfl fun its n hits hn => ?_
    obtain ⟨hbytes, hsizes⟩ := Layout.items_ok (Nat.lt_succ_self _) hits
    have hloop := hrest its hzero (hbytes ▸ hd.filled_body) hsizes
    rw [hd.filled_size (by omega)]
    have h4 : SIZEOF_LENGTH = 4 := rfl
    simp only [h4, Nat.mod_eq_of_lt hlen]
    subst hn
    rw [filled_length] at hloop
    exact hloop.left fun ss s' _ hR => ⟨_, rfl, hR⟩
  · rw [if_pos hzero, if_pos hzero]
    rfl

theorem sections_answers {vs : List Nat} {ds : List Bytes} {at_ content : Nat} (hle : vs.length ≤ 2)
    (hvs : ∀ v ∈ vs, v < 2 ^ 16) (hvalues : Holds buf at_ (vs.flatMap (Endian.le 2))) (hcount : ds.length = vs.count 0)
    (h : Holds buf content (ds.flatMap filled)) (hds : ∀ d ∈ ds, d.length + 4 < 2 ^ 32) :
    Answers (SectionsOk buf) (Layout.sections vs ds)
      (sectionsLoop buf vs.length 0 at_ content { type_n := 0, typedata := 0, protocol_n := 0, protocoldata := 0 }) := by
  match vs, hle with
  | [], _ => exact ⟨_, rfl, rfl, .nil .., by simp, rfl, .nil .., by simp⟩
  | [v], _ =>
    rw [List.flatMap_singleton] at hvalues
    refine sectionsLoop_cons _ (toword_holds hvalues (hvs v (by simp))) hcount h hds fun its _ hits hsizes => ?_
    exact ⟨_, rfl, rfl, hits, hsizes, rfl, .nil .., by simp⟩
  | [v, w], _ =>
    rw [List.flatMap_cons, List.flatMap_singleton] at hvalues
    have hvalue' := hvalues.right
    rw [Endian.le_length] at hvalue'
    refine sectionsLoop_cons _ (toword_holds hvalues.left (hvs v (by simp))) hcount h hds fun its hzero hits hsizes => ?_
    obtain ⟨-, -, hcount', h', hds'⟩ := head_holds hzero hcount h hds
    refine sectionsLoop_cons _ (toword_holds hvalue' (hvs w (by simp))) hcount' h' hds' fun its' _ hits' hsizes' => ?_
    exact ⟨_, rfl, rfl, hits, hsizes, rfl, hits', hsizes'⟩

theorem sprotoCreate_answers (proto : Bytes) : Answers (fun sp sp' => sp' = sp) (Layout.bundle proto) (sprotoCreate proto) := by
  have hall := Holds.all proto
  unfold sprotoCreate createFromBundle Layout.bundle
  refine (structField_answers hall).bind rfl fun p fn hstruct hfn => ?_
  obtain ⟨vs, ds⟩ := p
  have hok := Layout.struct_ok hstruct
  obtain ⟨hvalues, hdatas⟩ := hok.parts hall
  simp only at hfn ⊢
  subst hfn
  by_cases hcount : 2 < vs.length
  · rw [if_pos hcount, if_pos hcount]
    rfl
  rw [if_neg hcount, if_neg hcount]
  rw [Nat.zero_add] at hvalues hdatas
  refine (sections_answers (Nat.not_lt.mp hcount) hok.values hvalues hok.datas hdatas hok.sizes).bind rfl fun ss s _ hs => ?_
  simp only
  rw [hs.type_n, hs.protocol_n]
  refine (importItems_answers (fun _ _ h hd => importTypeAt_answers h hd) [] hs.typedata hs.typeSizes).bind rfl
    fun type type' _ htype => ?_
  refine (importItems_answers (fun _ _ h hd => importProtocol_answers h hd) [] hs.protocoldata hs.protocolSizes).bind rfl
    fun proto proto' _ hproto => ?_
  rw [htype, hproto]
  exact ⟨_, rfl, rfl⟩

/-! ### What is built -/

/-- Every reference is to a type of the schema, and the tags of every type ascend. -/
structure WellBuilt (sp : Bundle) : Prop where
  fields : ∀ t ∈ sp.type, ∀ f ∈ t.2.f, ∀ i, f.type = .struct i → i < sp.type.length
  protocols : ∀ p ∈ sp.proto, (∀ i ∈ p.request, i < sp.type.length) ∧ ∀ i ∈ p.response, i < sp.type.length
  ascending : ∀ t ∈ sp.type, t.2.f.Pairwise fun f g => f.tag < g.tag

/-- The reference of a field while it is read. -/
def FieldRead.InRange (type_n : Nat) (f : FieldRead) : Prop := ∀ i, f.type = some (.struct i) → i < type_n

theorem importFieldTag_inRange {type_n tag value : Nat} {f g : FieldRead} (hf : f.InRange type_n)
    (h : importFieldTag type_n tag value f = some g) : g.InRange type_n := by
  unfold importFieldTag at h
  split at h
  · obtain ⟨t, ht, rfl⟩ := Option.map_eq_some_iff.mp h
    intro i hi
    obtain rfl : t = .struct i := Option.some.inj hi
    unfold buildinType at ht
    split at ht <;> cases ht
  · split at h
    · cases h
    · rename_i hlt
      cases h
      rintro i ⟨⟩
      exact Nat.not_le.mp fun hle => hlt (.inl hle)
  · cases h; exact hf
  · split at h <;> cases h <;> exact hf
  · cases h; exact hf
  · cases h

theorem readValues_inRange (type_n : Nat) {tag : Nat} {name : Bytes} {vs : List Nat} {f g : FieldRead} (hf : f.InRange type_n)
    (h : readValues type_n name vs tag f = some g) : g.InRange type_n := by
  induction vs generalizing tag f with
  | nil => cases h; exact hf
  | cons v vs ih =>
    rw [readValues] at h
    split at h
    · exact ih hf h
    split at h
    · split at h
      · cases h
      · refine ih ?_ h
        exact hf
    split at h
    · cases h
    split at h
    · cases h
    · rename_i f' hf'
      exact ih (importFieldTag_inRange hf hf') h

/-- The references of a protocol while it is read. -/
def ProtocolRead.InRange (type_n : Nat) (p : ProtocolRead) : Prop :=
  (∀ i ∈ p.request, i < type_n) ∧ ∀ i ∈ p.response, i < type_n

theorem importProtocolField_inRange {type_n i : Nat} {value : Int} {p q : ProtocolRead} (hp : p.InRange type_n)
    (h : importProtocolField type_n i value p = some q) : q.InRange type_n := by
  unfold importProtocolField at h
  split at h
  · split at h <;> cases h
    exact hp
  · split at h
    · cases h
    · cases h
      refine ⟨?_, hp.2⟩
      rintro j ⟨⟩
      omega
  · split at h
    · cases h
    · cases h
      refine ⟨hp.1, ?_⟩
      rintro j ⟨⟩
      omega
  · cases h

theorem readProtocol_inRange (type_n : Nat) {i : Nat} {name : Bytes} {vs : List Nat} {p q : ProtocolRead} (hp : p.InRange type_n)
    (h : readProtocol type_n name vs i p = some q) : q.InRange type_n := by
  induction vs generalizing i p with
  | nil => cases h; exact hp
  | cons v vs ih =>
    rw [readProtocol] at h
    split at h
    · exact ih hp h
    split at h
    · split at h
      · cases h
      · refine ih ?_ h
        exact hp
    obtain ⟨p', hp', h⟩ := Option.bind_eq_some_iff.mp h
    exact ih (importProtocolField_inRange hp hp') h

namespace Layout

theorem ofOption_ok {α : Type} {o : Option α} {a : α} (h : ofOption o = .ok a) : o = some a := by
  cases o with
  | none => cases h
  | some b => cases h; rfl

theorem field_inRange {type_n : Nat} {d : Bytes} {f : Field} (h : field type_n d = .ok f) :
    ∀ i, f.type = .struct i → i < type_n := by
  obtain ⟨⟨vs, ds⟩, -, h⟩ := Outcome.ok_of_bind h
  obtain ⟨g, hg, hf⟩ := Option.bind_eq_some_iff.mp (ofOption_ok h)
  have hrange := readValues_inRange type_n (by rintro i ⟨⟩) hg
  obtain ⟨tag, -, hf⟩ := Option.bind_eq_some_iff.mp hf
  obtain ⟨t, ht, hf⟩ := Option.bind_eq_some_iff.mp hf
  obtain ⟨name, -, hf⟩ := Option.bind_eq_some_iff.mp hf
  cases hf
  rintro i rfl
  exact hrange i ht

theorem fields_ok {type_n : Nat} {last : Int} {ds : List Bytes} {fs : List Field} (h : fields type_n last ds = .ok fs) :
    Ascending last fs ∧ ∀ f ∈ fs, ∀ i, f.type = .struct i → i < type_n := by
  induction ds generalizing last fs with
  | nil => cases h; exact ⟨trivial, by simp⟩
  | cons d ds ih =>
    obtain ⟨f, hf, h⟩ := Outcome.ok_of_bind h
    split at h
    · cases h
    rename_i hlt
    obtain ⟨fs', hfs, h⟩ := Outcome.ok_of_bind h
    cases h
    obtain ⟨hasc, hrange⟩ := ih hfs
    refine ⟨⟨by omega, hasc⟩, ?_⟩
    intro g hg
    rcases List.mem_cons.mp hg with rfl | hg
    · exact field_inRange hf
    · exact hrange g hg

theorem type_ok {type_n : Nat} {d : Bytes} {t : Bytes × SprotoType} (h : type type_n d = .ok t) :
    Ascending (-1) t.2.f ∧ ∀ f ∈ t.2.f, ∀ i, f.type = .struct i → i < type_n := by
  obtain ⟨⟨vs, ds⟩, -, h⟩ := Outcome.ok_of_bind h
  simp only at h
  split at h
  · cases h
  split at h
  · cases h
  split at h
  · cases h
    exact ⟨trivial, by simp⟩
  obtain ⟨its, -, h⟩ := Outcome.ok_of_bind h
  split at h
  · cases h
  obtain ⟨fs, hfs, h⟩ := Outcome.ok_of_bind h
  obtain ⟨st, hst, h⟩ := Outcome.ok_of_bind h
  cases h
  obtain ⟨m, -, rfl⟩ := Option.map_eq_some_iff.mp (ofOption_ok hst)
  exact fields_ok hfs

theorem protocol_ok {type_n : Nat} {d : Bytes} {p : Protocol} (h : protocol type_n d = .ok p) :
    (∀ i ∈ p.request, i < type_n) ∧ ∀ i ∈ p.response, i < type_n := by
  obtain ⟨⟨vs, ds⟩, -, h⟩ := Outcome.ok_of_bind h
  obtain ⟨q, hq, hp⟩ := Option.bind_eq_some_iff.mp (ofOption_ok h)
  have hrange := readProtocol_inRange type_n ⟨by simp, by simp⟩ hq
  obtain ⟨name, -, hp⟩ := Option.bind_eq_some_iff.mp hp
  obtain ⟨tag, -, hp⟩ := Option.bind_eq_some_iff.mp hp
  cases hp
  exact hrange

theorem mapM_ok {α β : Type} {f : α → Except Reason β} {xs : List α} {ys : List β} (h : xs.mapM f = .ok ys) :
    ys.length = xs.length ∧ ∀ y ∈ ys, ∃ x, f x = .ok y := by
  induction xs generalizing ys with
  | nil => cases h; exact ⟨rfl, by simp⟩
  | cons x xs ih =>
    rw [List.mapM_cons] at h
    obtain ⟨y, hy, h⟩ := Outcome.ok_of_bind h
    obtain ⟨ys', hys, h⟩ := Outcome.ok_of_bind h
    cases h
    obtain ⟨hlen, hmem⟩ := ih hys
    refine ⟨by rw [List.length_cons, List.length_cons, hlen], ?_⟩
    intro z hz
    rcases List.mem_cons.mp hz with rfl | hz
    · exact ⟨x, hy⟩
    · exact hmem z hz

theorem bundle_wellBuilt {bs : Bytes} {sp : Bundle} (h : bundle bs = .ok sp) : WellBuilt sp := by
  obtain ⟨⟨vs, ds⟩, -, h⟩ := Outcome.ok_of_bind h
  simp only at h
  split at h
  · cases h
  obtain ⟨ss, -, h⟩ := Outcome.ok_of_bind h
  obtain ⟨types, htypes, h⟩ := Outcome.ok_of_bind h
  obtain ⟨protos, hprotos, h⟩ := Outcome.ok_of_bind h
  cases h
  obtain ⟨hlen, htypes⟩ := mapM_ok htypes
  obtain ⟨-, hprotos⟩ := mapM_ok hprotos
  refine ⟨?_, ?_, ?_⟩
  · intro t ht
    obtain ⟨d, hd⟩ := htypes t ht
    rw [hlen]
    exact (type_ok hd).2
  · intro p hp
    obtain ⟨d, hd⟩ := hprotos p hp
    rw [hlen]
    exact protocol_ok hd
  · intro t ht
    obtain ⟨d, hd⟩ := htypes t ht
    exact (type_ok hd).1.pairwise

end Layout

/-- The call returns without a read outside of the input or a loop that does not end, and what it builds is in order. -/
def Created (proto : Bytes) : Prop := ∃ r, sprotoCreate proto = .ok r ∧ ∀ sp ∈ r, WellBuilt sp

/-- Where no length that is read wraps around, a schema is handled as it should be exactly if no item of an array takes 0
bytes and no type has an array of no fields. -/
theorem create_checked (proto : Bytes) :
    (Layout.bundle proto ≠ .error .wraps → Layout.bundle proto ≠ .error .still → Layout.bundle proto ≠ .error .hollow →
      Created proto) ∧
    (Layout.bundle proto = .error .still ∨ Layout.bundle proto = .error .hollow → ¬ Created proto) := by
  have hanswers := sprotoCreate_answers proto
  constructor
  · intro hwraps hstill hhollow
    cases hread : Layout.bundle proto with
    | ok sp =>
      rw [hread] at hanswers
      obtain ⟨sp', hcreate, rfl⟩ := hanswers
      refine ⟨_, hcreate, ?_⟩
      rintro q ⟨⟩
      exact Layout.bundle_wellBuilt hread
    | error e =>
      rw [hread] at hanswers hwraps hstill hhollow
      cases e with
      | refused => exact ⟨none, hanswers, by simp⟩
      | wraps => exact absurd rfl hwraps
      | still => exact absurd rfl hstill
      | hollow => exact absurd rfl hhollow
  · rintro (hstill | hhollow) ⟨r, hr, -⟩
    · rw [hstill] at hanswers
      rw [show sprotoCreate proto = .error .fuel from hanswers] at hr
      cases hr
    · rw [hhollow] at hanswers
      rw [show sprotoCreate proto = .error .beyond from hanswers] at hr
      cases hr

/-- An array of types with one item, whose length is `2 ^ 32 - 4`. -/
def stillBundle : Bytes := [1, 0, 0, 0, 4, 0, 0, 0, 0xfc, 0xff, 0xff, 0xff]

/-- A type "a" with an array of no fields. -/
def hollowBundle : Bytes := message [0] [filled (message [0, 0] [[97], []])]

theorem create_unchecked : ¬ Created stillBundle ∧ ¬ Created hollowBundle := by
  constructor
  · rintro ⟨r, hr, -⟩
    cases hr
  · rintro ⟨r, hr, -⟩
    cases hr

end Sproto
end Skynet
