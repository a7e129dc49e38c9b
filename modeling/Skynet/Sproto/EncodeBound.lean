import Skynet.Sproto.Encoded
import Skynet.Sproto.Space

/-!
# Skynet.Sproto.EncodeBound

`sproto_encode` in a buffer of any size.

* `Feeds` : the values that the callback finds for an array, in order.
* `Obeys` : a call does what a space says: it gives up, it writes behind the end, or its result is right.
* `tables_obey` : the encoder does what `Space.table` says.
-/

namespace Skynet
namespace Sproto

open Lua

/-! ### Outcomes -/

/-- A call does what its space says, where `good` tells the results that are right for a space. -/
def Obeys {α ρ σ : Type} (fail : ρ) (good : α → ρ → σ → Prop) (x : Except Fault (ρ × σ)) : Space α → Prop
  | .short => ∃ ud, x = .ok (fail, ud)
  | .overrun => x = .error .overrun
  | .fits a => ∃ r ud, x = .ok (r, ud) ∧ good a r ud

section Obeys

variable {α β ρ ρ' σ σ' : Type} {fail : ρ} {fail' : ρ'} {good : α → ρ → σ → Prop} {good' : β → ρ' → σ' → Prop}
  {x : Except Fault (ρ × σ)} {k : ρ × σ → Except Fault (ρ' × σ')} {s : Space α} {t : α → Space β}

theorem Obeys.bind (h : Obeys fail good x s) (hfail : ∀ ud, ∃ ud', k (fail, ud) = .ok (fail', ud'))
    (hk : ∀ a r ud, good a r ud → Obeys fail' good' (k (r, ud)) (t a)) : Obeys fail' good' (x >>= k) (s.bind t) := by
  cases s with
  | short =>
    obtain ⟨ud, rfl⟩ := h
    exact hfail ud
  | overrun =>
    have hx : x = .error .overrun := h
    rw [hx]
    exact rfl
  | fits a =>
    obtain ⟨r, ud, rfl, hr⟩ := h
    exact hk a r ud hr

theorem Obeys.map {good' : β → ρ → σ → Prop} {g : α → β} (h : Obeys fail good x s)
    (himp : ∀ a r ud, good a r ud → good' (g a) r ud) : Obeys fail good' x (s.bind fun a => .fits (g a)) := by
  cases s with
  | short => exact h
  | overrun => exact h
  | fits a =>
    obtain ⟨r, ud, hx, hr⟩ := h
    exact ⟨r, ud, hx, himp a r ud hr⟩

theorem Obeys.imp {good' : α → ρ → σ → Prop} (h : Obeys fail good x s) (himp : ∀ a r ud, good a r ud → good' a r ud) :
    Obeys fail good' x s := by
  have hmap := h.map himp
  rwa [Space.bind_self] at hmap

end Obeys

/-! ### The values of an array -/

section Encode

variable {co : Coercions} {ts : List SprotoType} {left : Nat} {f : Field} {es : Entries} {self self' : EncodeUd}

/-- From index `k` on the callback finds the values `ws`, and nil behind them. Nothing is said about indices that no buffer has room
for. -/
inductive Feeds (args : EncodeArg) (ok : Value → Prop) : Nat → EncodeUd → List Value → EncodeUd → Prop
  | far {k : Nat} {self self' : EncodeUd} {ws : List Value} (hk : 2 ^ 31 ≤ k) : Feeds args ok k self ws self'
  | last {k : Nat} {self self' : EncodeUd} (h : lookup { args with index := k } self = .ok (some .nil, self')) :
      Feeds args ok k self [] self'
  | item {k : Nat} {self mid self' : EncodeUd} {w : Value} {ws : List Value}
      (h : lookup { args with index := k } self = .ok (some w, mid)) (hnil : w.isNil = false) (hw : ok w)
      (hs : Feeds args ok (k + 1) mid ws self') : Feeds args ok k self (w :: ws) self'

/-- The callback at a value that is not nil. -/
theorem encode_lookup {args : EncodeArg} {w : Value} (h : lookup args self = .ok (some w, self')) (hnil : w.isNil = false) :
    encode co ts (left + 1) args self =
      (do let r ← encodeValue co (encodeStruct ts (encode co ts left)) args w
          .ok (r, self')) := by
  rw [encode, h]
  cases w with
  | nil => cases hnil
  | _ => rfl

/-! ### Integers -/

section Integers

variable {room : Nat} {done : List (BitVec 64)} {a : IntArray}

theorem Written.size_eq (h : Written room done a) : a.size = room - done.length * width done := by
  have hbuf := h.buffer
  have hsize := h.size
  omega

theorem Written.length_le (h : Written room done a) : done.length * width done ≤ room := by
  have hbuf := h.buffer
  have hsize := h.size
  omega

/-- There are no eight bytes left for an item. -/
theorem putInteger_short (h : Written room done a) (hlt : room < done.length * width done + 8) (bs : Bytes) :
    putInteger a bs = .ok none := by
  have hsize := h.size_eq
  rw [putInteger, if_pos (by omega)]

/-- An item of four bytes among others. -/
theorem putInteger_small (h : Written room done a) (hw : width done = 4) {v : BitVec 64} (hv : Small v)
    (hroom : done.length * 4 + 8 ≤ room) :
    ∃ a', putInteger a (integerBytes v) = .ok (some a') ∧ Written room (done ++ [v]) a' ∧ width (done ++ [v]) = 4 := by
  have hsize := h.size_eq
  rw [hw] at hsize
  have hall : (∀ w ∈ done ++ [v], Small w) ↔ ∀ w ∈ done, Small w := by
    rw [List.forall_mem_append, List.forall_mem_singleton]
    exact and_iff_left hv
  have hsame : width (done ++ [v]) = width done := by simp only [width, hall]
  have hlen : a.intlen = 4 := by rw [h.intlen, hw]
  refine ⟨nextInteger a (Endian.le 4 v.toNat), ?_, ?_, by rw [hsame, hw]⟩
  · rw [putInteger, if_neg (by omega), integerBytes, if_pos hv, if_pos (Endian.le_length 4 _), if_neg (by omega)]
  · have hnext := nextInteger_written (v := v) (by rw [hsame, h.intlen]) h.index (by rw [h.buffer, h.intlen])
      (by rw [h.mem, h.intlen]) h.size (by omega)
    rwa [hlen] at hnext

/-- The first item of eight bytes makes the others wider. -/
theorem putInteger_wide (h : Written room done a) (hw : width done = 4) {v : BitVec 64} (hv : ¬Small v)
    (hroom : done.length * 4 + 8 ≤ room) : putInteger a (integerBytes v) = (widen a).map fun a => a.map fun a =>
      nextInteger a (integerBytes v) := by
  have hsize := h.size_eq
  rw [hw] at hsize
  rw [putInteger, if_neg (by omega), integerBytes, if_neg hv, if_neg (by rw [Endian.le_length]; decide),
    if_neg (by rw [Endian.le_length]; decide)]

theorem widen_eq (h : Written room done a) (hw : width done = 4) : widen a =
    if room < done.length * 8 then .error .overrun
    else if room < done.length * 8 + 8 then .ok none
    else .ok (some { a with
      size := a.size - done.length * 4
      buffer := a.buffer + done.length * 4
      mem := rearrange (a.index - 1) a.mem
      intlen := 8 }) := by
  have hsize := h.size_eq
  have hle := h.length_le
  rw [hw] at hsize hle
  have hused : (a.index - 1) * 4 = done.length * 4 := by rw [h.index]; simp
  rw [widen, if_pos (by rw [h.intlen, hw])]
  simp only [hused]
  by_cases hover : room < done.length * 8
  · rw [if_pos hover, if_pos (by omega)]
  · rw [if_neg hover, if_neg (by omega)]
    by_cases hshort : room < done.length * 8 + 8
    · rw [if_pos hshort, if_pos (by omega)]
    · rw [if_neg hshort, if_neg (by omega)]

theorem width_wide {v : BitVec 64} (hv : ¬Small v) (vs : List (BitVec 64)) : width (vs ++ [v]) = 8 := by
  rw [width, if_neg]
  intro hall
  exact hv (hall v (by simp))

theorem width_append_wide {vs : List (BitVec 64)} (hw : width vs = 8) (ws : List (BitVec 64)) : width (vs ++ ws) = 8 := by
  rw [width, if_neg]
  intro hall
  rw [width, if_pos fun v hv => hall v (List.mem_append_left ws hv)] at hw
  cases hw

/-- An array of integers whose items take `n` bytes. -/
def IntegersDone (room : Nat) (xs : List (BitVec 64)) (self' : EncodeUd) (n : Nat) (r : ArrayResult) (ud : EncodeUd) : Prop :=
  r = .done (integersBody xs) ∧ n = xs.length * width xs ∧ n ≤ room ∧ ud = self'

abbrev IsInteger (w : Value) : Prop := ∃ x, w = .integer x

variable {args : EncodeArg} {k fuel : Nat} {ws : List Value}

/-- The end of the array. -/
theorem encodeIntegers_last (ha : Written room done a) (h : lookup { args with index := a.index } self = .ok (some .nil, self')) :
    Obeys .fail (IntegersDone room done self') (encodeIntegers (encode co ts (left + 1)) args (fuel + 1) a self)
      (.fits (done.length * width done)) := by
  have hcb : encode co ts (left + 1) { args with length := 8, index := a.index } self = .ok (.nil, self') := encode_nil h
  refine ⟨_, self', ?_, rfl, rfl, ha.length_le, rfl⟩
  rw [encodeIntegers, hcb]
  simp only [bind, Except.bind, written_body ha]

/-- One item and what comes behind it. -/
theorem encodeIntegers_item (ht : args.type = .integer) {v : BitVec 64}
    (h : lookup { args with index := a.index } self = .ok (some (.integer v), self')) :
    encodeIntegers (encode co ts (left + 1)) args (fuel + 1) a self =
      (do match ← putInteger a (integerBytes v) with
          | none => .ok (.fail, self')
          | some a => encodeIntegers (encode co ts (left + 1)) args fuel a self') := by
  have hcb : encode co ts (left + 1) { args with length := 8, index := a.index } self = .ok (.wrote (integerBytes v), self') :=
    encode_of_lookup h rfl (encodeValue_integer (show ({ args with length := 8, index := a.index } : EncodeArg).type = _ from ht) v)
  rw [encodeIntegers, hcb]
  rfl

/-- Once the items have eight bytes, each of the others takes eight. -/
theorem encodeIntegers_wide (ht : args.type = .integer) (hroom : room + 1 < 2 ^ 31)
    (hfeed : Feeds args IsInteger k self ws self') (ha : Written room done a) (hk : a.index = k) (hw : width done = 8)
    (hfuel : a.size < fuel) :
    Obeys .fail (IntegersDone room (done ++ ws.map Space.integerOf) self')
      (encodeIntegers (encode co ts (left + 1)) args fuel a self) (Space.take (8 * (done.length + ws.length)) room) := by
  induction hfeed generalizing done a fuel with
  | far hfar =>
    have hle := ha.length_le
    have hidx := ha.index
    rw [hw] at hle
    omega
  | last h =>
    obtain ⟨fuel, rfl⟩ : ∃ n, fuel = n + 1 := ⟨fuel - 1, by omega⟩
    have hle := ha.length_le
    rw [hw] at hle
    rw [List.length_nil, Nat.add_zero, Space.take, if_neg (by omega), Nat.mul_comm, List.map_nil, List.append_nil, ← hw]
    exact encodeIntegers_last ha (hk ▸ h)
  | @item k self mid self' w ws h hnil hx hs ih =>
    obtain ⟨fuel, rfl⟩ : ∃ n, fuel = n + 1 := ⟨fuel - 1, by omega⟩
    obtain ⟨v, rfl⟩ := hx
    rw [encodeIntegers_item ht (hk ▸ h)]
    by_cases hfit : room < done.length * 8 + 8
    · rw [putInteger_short ha (by rw [hw]; exact hfit), Space.take, if_pos (by rw [List.length_cons]; omega)]
      exact ⟨mid, rfl⟩
    · obtain ⟨a', hput, ha'⟩ := putInteger_spec ha v (by omega)
      have hw' : width (done ++ [v]) = 8 := width_append_wide hw [v]
      have hsize := ha.size_eq
      have hsize' := ha'.size_eq
      have hidx := ha.index
      have hidx' := ha'.index
      rw [hw] at hsize
      rw [hw', List.length_append, List.length_singleton] at hsize'
      rw [List.length_append, List.length_singleton] at hidx'
      have hfuel' : a'.size < fuel := by omega
      have hrest := ih ha' (by omega) hw' hfuel'
      rw [List.append_assoc, List.length_append, List.length_singleton, Nat.add_assoc, Nat.add_comm 1] at hrest
      simp only [hput, bind, Except.bind]
      exact hrest

/-- The items have four bytes until one needs eight. -/
theorem encodeIntegers_obeys (ht : args.type = .integer) (hroom : room + 1 < 2 ^ 31)
    (hfeed : Feeds args IsInteger k self ws self') (ha : Written room done a) (hk : a.index = k) (hw : width done = 4)
    (hfuel : a.size < fuel) :
    Obeys .fail (IntegersDone room (done ++ ws.map Space.integerOf) self')
      (encodeIntegers (encode co ts (left + 1)) args fuel a self) (Space.integers room done.length ws) := by
  induction hfeed generalizing done a fuel with
  | far hfar =>
    have hle := ha.length_le
    have hidx := ha.index
    rw [hw] at hle
    omega
  | last h =>
    obtain ⟨fuel, rfl⟩ : ∃ n, fuel = n + 1 := ⟨fuel - 1, by omega⟩
    rw [Space.integers, Nat.mul_comm, List.map_nil, List.append_nil, ← hw]
    exact encodeIntegers_last ha (hk ▸ h)
  | @item k self mid self' w ws h hnil hx hs ih =>
    obtain ⟨fuel, rfl⟩ : ∃ n, fuel = n + 1 := ⟨fuel - 1, by omega⟩
    obtain ⟨v, rfl⟩ := hx
    have hsize := ha.size_eq
    have hidx := ha.index
    rw [hw] at hsize
    rw [encodeIntegers_item ht (hk ▸ h), Space.integers]
    by_cases hfit : room < done.length * 4 + 8
    · rw [putInteger_short ha (by rw [hw]; exact hfit), if_pos (by omega)]
      exact ⟨mid, rfl⟩
    rw [if_neg (by omega)]
    have happ : done ++ (Value.integer v :: ws).map Space.integerOf = (done ++ [v]) ++ ws.map Space.integerOf := by
      rw [List.append_assoc]; rfl
    rw [happ]
    by_cases hv : Small v
    · obtain ⟨a', hput, ha', hw'⟩ := putInteger_small ha hw hv (by omega)
      have hsize' := ha'.size_eq
      have hidx' := ha'.index
      rw [hw'] at hsize'
      rw [List.length_append, List.length_singleton] at hsize' hidx'
      have hfuel' : a'.size < fuel := by omega
      have hrest := ih ha' (by omega) hw' hfuel'
      rw [List.length_append, List.length_singleton] at hrest
      rw [if_pos (show Small (Space.integerOf (.integer v)) from hv)]
      simp only [hput, bind, Except.bind]
      exact hrest
    · rw [if_neg (show ¬Small (Space.integerOf (.integer v)) from hv)]
      -- the items so far are widened, and the checks are made with what the array leaves then
      by_cases hover : room < done.length * 8
      · rw [putInteger_wide ha hw hv (by omega), widen_eq ha hw, if_pos hover, if_pos (by omega)]
        rfl
      rw [if_neg (by omega)]
      by_cases hshort : room < done.length * 8 + 8
      · rw [putInteger_wide ha hw hv (by omega), widen_eq ha hw, if_neg hover, if_pos hshort, Space.take,
          if_pos (by rw [List.length_cons]; omega)]
        exact ⟨mid, rfl⟩
      obtain ⟨a', hput, ha'⟩ := putInteger_spec ha v (by omega)
      have hw' : width (done ++ [v]) = 8 := width_wide hv done
      have hsize' := ha'.size_eq
      have hidx' := ha'.index
      rw [hw'] at hsize'
      rw [List.length_append, List.length_singleton] at hsize' hidx'
      have hfuel' : a'.size < fuel := by omega
      have hrest : Obeys .fail _ (encodeIntegers (encode co ts (left + 1)) args fuel a' mid) _ :=
        encodeIntegers_wide ht hroom hs ha' (by omega) hw' hfuel'
      rw [List.length_append, List.length_singleton, Nat.add_assoc, Nat.add_comm 1] at hrest
      simp only [hput, bind, Except.bind]
      exact hrest

end Integers

/-- The items of an array whose bytes are right. -/
def BodyDone (wire : Bytes → Prop) (room : Nat) (self' : EncodeUd) (n : Nat) (r : ArrayResult) (ud : EncodeUd) : Prop :=
  ∃ body, r = .done body ∧ body.length = n ∧ n ≤ room ∧ wire body ∧ ud = self'

variable {args : EncodeArg} {k fuel room : Nat} {ws : List Value}

theorem integersBody_length (xs : List (BitVec 64)) :
    (integersBody xs).length = if xs = [] then 0 else xs.length * width xs + 1 := by
  unfold integersBody
  split
  · rfl
  · rw [List.length_cons, words_length]

theorem length_le_integersBody (xs : List (BitVec 64)) : xs.length ≤ (integersBody xs).length := by
  rw [integersBody_length]
  split
  · rename_i hnil
    rw [hnil, List.length_nil]
  · rcases width_cases xs with hw | hw <;> rw [hw] <;> omega

theorem encodeIntegerArray_obeys (ht : args.type = .integer) (hroom : room < 2 ^ 31)
    (hfeed : Feeds args IsInteger 1 self ws self') :
    Obeys .fail (BodyDone (· = integersBody (ws.map Space.integerOf)) room self')
      (encodeIntegerArray (encode co ts (left + 1)) args room self) (Space.integerArray ws room) := by
  unfold encodeIntegerArray Space.integerArray
  by_cases hone : room < 1
  · rw [if_pos hone, if_pos hone]
    exact ⟨self, rfl⟩
  rw [if_neg hone, if_neg hone]
  have hrun : Obeys .fail _ (encodeIntegers (encode co ts (left + 1)) args (room + 1)
      { intlen := 4, index := 1, mem := fun _ => 0, buffer := 0, size := room - 1 } self) _ :=
    encodeIntegers_obeys ht (show room - 1 + 1 < 2 ^ 31 by omega) hfeed (written_init (room - 1)) rfl width_nil
      (show room - 1 < room + 1 by omega)
  refine hrun.map ?_
  intro n r ud ⟨hr, hn, hle, hud⟩
  have hnil : ws.map Space.integerOf = [] ↔ ws = [] := List.map_eq_nil_iff
  refine ⟨_, hr, ?_, ?_, rfl, hud⟩
  · rw [List.nil_append, integersBody_length, hn]
    simp only [hnil, List.nil_append]
  · split <;> omega

/-! ### Booleans -/

def booleanOf : Value → Bool
  | .boolean b => b
  | _ => false

abbrev IsBoolean (w : Value) : Prop := ∃ b, w = .boolean b

theorem encodeBooleans_obeys (ht : args.type = .boolean) {body : Bytes} (hfeed : Feeds args IsBoolean k self ws self')
    (hroom : k + room < 2 ^ 31) (hfuel : room < fuel) :
    Obeys .fail (fun n r ud => r = .done (body ++ ws.map (booleanByte ∘ booleanOf)) ∧ n = ws.length ∧ n ≤ room ∧ ud = self')
      (encodeBooleans (encode co ts (left + 1)) args fuel k body room self) (Space.take ws.length room) := by
  induction hfeed generalizing fuel room body with
  | far hfar => omega
  | @last k self self' h =>
    obtain ⟨fuel, rfl⟩ : ∃ n, fuel = n + 1 := ⟨fuel - 1, by omega⟩
    have hcb : encode co ts (left + 1) { args with length := 4, index := k } self = .ok (.nil, self') := encode_nil h
    refine ⟨_, self', ?_, rfl, rfl, Nat.zero_le _, rfl⟩
    rw [encodeBooleans, hcb, List.map_nil, List.append_nil]
    rfl
  | @item k self mid self' w ws h hnil hx hs ih =>
    obtain ⟨fuel, rfl⟩ : ∃ n, fuel = n + 1 := ⟨fuel - 1, by omega⟩
    obtain ⟨b, rfl⟩ := hx
    have hcb : encode co ts (left + 1) { args with length := 4, index := k } self =
        .ok (.wrote (Endian.le 4 (if b then 1 else 0)), mid) :=
      encode_of_lookup h rfl (encodeValue_boolean (show ({ args with length := 4, index := k } : EncodeArg).type = _ from ht) b)
    have hbyte : (if Endian.ofLe (Endian.le 4 (if b then 1 else 0)) ≠ 0 then (1 : UInt8) else 0) = booleanByte b := by
      cases b <;> rfl
    rw [encodeBooleans, hcb]
    simp only [bind, Except.bind, hbyte]
    by_cases hfit : room < 1
    · rw [if_pos hfit, Space.take, if_pos (by rw [List.length_cons]; omega)]
      exact ⟨mid, rfl⟩
    rw [if_neg hfit]
    have hrest : Obeys .fail _ (encodeBooleans (encode co ts (left + 1)) args fuel (k + 1) (body ++ [booleanByte b]) (room - 1) mid)
        _ := ih (by omega) (by omega)
    have htake : Space.take (Value.boolean b :: ws).length room =
        (Space.take ws.length (room - 1)).bind fun n => .fits (n + 1) := by
      unfold Space.take
      rw [List.length_cons]
      by_cases hlt : room < ws.length + 1
      · rw [if_pos hlt, if_pos (by omega)]; rfl
      · rw [if_neg hlt, if_neg (by omega)]; rfl
    rw [htake]
    refine hrest.map ?_
    rintro n r ud ⟨rfl, rfl, hle, rfl⟩
    refine ⟨?_, rfl, by omega, rfl⟩
    rw [List.append_assoc]
    rfl

/-! ### Strings and structs -/

/-- The callback for a string or a struct does what its space says. -/
def ItemObeys (co : Coercions) (ts : List SprotoType) (left : Nat) (t : FieldType) (w : Value) : Prop :=
  ∀ (args : EncodeArg) (self : EncodeUd), args.type = t → args.length < 2 ^ 31 →
    Obeys .error (fun n r ud => (∃ bs, r = .wrote bs ∧ bs.length = n ∧ n ≤ args.length ∧
        ItemWire ts (TableWire ts left) t w bs) ∧ ud = self)
      (do let r ← encodeValue co (encodeStruct ts (encode co ts left)) args w
          .ok (r, self))
      (Space.object ts (Space.table ts left) t w args.length)

/-- The bytes of objects. -/
def ObjectsWire (ts : List SprotoType) (left : Nat) (t : FieldType) (ws : List Value) (body : Bytes) : Prop :=
  ∃ bss, body = (bss.map filled).flatten ∧ List.Forall₂ (ItemWire ts (TableWire ts left) t) ws bss

theorem encodeObjects_obeys {t : FieldType} (ht : args.type = t) {body : Bytes}
    (hfeed : Feeds args (ItemObeys co ts left t) k self ws self') (hroom : k + room < 2 ^ 31) (hfuel : room < fuel) :
    Obeys .fail (fun n r ud => ∃ bs, r = .done (body ++ bs) ∧ bs.length = n ∧ n ≤ room ∧ ObjectsWire ts left t ws bs ∧ ud = self')
      (encodeObjects (encode co ts (left + 1)) args fuel k body room self)
      (Space.objects (Space.object ts (Space.table ts left) t) ws room) := by
  have hL : SIZEOF_LENGTH = 4 := rfl
  induction hfeed generalizing fuel room body with
  | far hfar => omega
  | @last k self self' h =>
    obtain ⟨fuel, rfl⟩ : ∃ n, fuel = n + 1 := ⟨fuel - 1, by omega⟩
    have hcb : ∀ len, encode co ts (left + 1) { args with length := len, index := k } self = .ok (.nil, self') :=
      fun _ => encode_nil h
    rw [encodeObjects, Space.objects, hL, hcb]
    by_cases hfit : room < 4
    · rw [if_pos hfit, if_pos hfit]
      exact ⟨self, rfl⟩
    rw [if_neg hfit, if_neg hfit]
    exact ⟨_, self', rfl, [], by rw [List.append_nil], rfl, Nat.zero_le _, ⟨[], rfl, .nil⟩, rfl⟩
  | @item k self mid self' w ws h hnil hw hs ih =>
    obtain ⟨fuel, rfl⟩ : ∃ n, fuel = n + 1 := ⟨fuel - 1, by omega⟩
    have hcb : ∀ len, encode co ts (left + 1) { args with length := len, index := k } self = _ := fun _ => encode_lookup h hnil
    rw [encodeObjects, Space.objects, hL, hcb]
    by_cases hfit : room < 4
    · rw [if_pos hfit, if_pos hfit]
      exact ⟨self, rfl⟩
    rw [if_neg hfit, if_neg hfit]
    refine (hw { args with length := room - 4, index := k } mid ht (by simp only; omega)).bind (fun ud => ⟨ud, rfl⟩) ?_
    rintro n r ud ⟨⟨bs, rfl, hlen, hle, hwire⟩, rfl⟩
    simp only at hle ⊢
    rw [if_neg (by omega), hlen]
    have hrest : Obeys .fail _ (encodeObjects (encode co ts (left + 1)) args fuel (k + 1) (body ++ filled bs) (room - 4 - n) ud)
        _ := ih (by omega) (by omega)
    refine hrest.map ?_
    rintro m r ud ⟨rest, rfl, hm, hmle, ⟨bss, rfl, hbss⟩, rfl⟩
    refine ⟨filled bs ++ (bss.map filled).flatten, by rw [List.append_assoc], ?_, by omega, ⟨bs :: bss, rfl, .cons hwire hbss⟩,
      rfl⟩
    rw [List.length_append, filled_length, hlen, hm]

theorem string_obeys (s : Bytes) : ItemObeys co ts left .string (.string s) := by
  intro args self ht hlen
  rw [Space.object, Space.take]
  simp only [encodeValue, ht, Coercions.toStr]
  by_cases hfit : args.length < s.length
  · rw [if_pos hfit, if_pos hfit]
    exact ⟨self, rfl⟩
  · rw [if_neg hfit, if_neg hfit]
    exact ⟨_, self, rfl, ⟨s, rfl, rfl, by omega, .string s⟩, rfl⟩

/-- Tables of a level do what their space says. -/
def TablesObey (co : Coercions) (ts : List SprotoType) (left : Nat) : Prop :=
  ∀ (i : Nat) (st : SprotoType) (es : Entries) (room : Nat), ts[i]? = some st → Fits ts left st es → room < 2 ^ 31 →
    Obeys none (fun n r _ => ∃ bs, r = some bs ∧ bs.length = n ∧ n ≤ room ∧ TableWire ts left st es bs)
      (sprotoEncode (encode co ts left) st room (encodeUd es)) (Space.table ts left st es room)

theorem struct_obeys (htables : TablesObey co ts left) {i : Nat} {st : SprotoType} (hst : ts[i]? = some st) (hok : Fits ts left st es) :
    ItemObeys co ts left (.struct i) (.table es) := by
  intro args self ht hlen
  rw [Space.object]
  simp only [encodeValue, ht, encodeStruct, hst, bind_assoc]
  rw [← Space.bind_self (Space.table ts left st es args.length)]
  refine (htables i st es args.length hst hok hlen).bind (fun _ => ⟨self, rfl⟩) ?_
  rintro n r ud ⟨bs, rfl, hbs, hle, hwire⟩
  exact ⟨_, self, rfl, ⟨bs, rfl, hbs, hle, .struct hst hwire⟩, rfl⟩

/-- A string or a struct of a level. -/
theorem item_obeys (htables : TablesObey co ts left) {t : FieldType} (hint : t ≠ .integer) (hbool : t ≠ .boolean) {v : Value}
    (h : ItemOk ts (Fits ts left) t v) : ItemObeys co ts left t v := by
  cases h with
  | integer v => exact absurd rfl hint
  | boolean b => exact absurd rfl hbool
  | string s => exact string_obeys s
  | struct hst h => exact struct_obeys htables hst h

/-! ### Arrays -/

theorem feeds_range (ho : Opens f es self) (hkey : f.key < 0) {ok : Value → Prop} {j n : Nat}
    (hitems : ∀ i < j + n, (rawgeti es (1 + i)).isNil = false ∧ ok (rawgeti es (1 + i)))
    (hend : 1 + (j + n) < 2 ^ 31 → rawgeti es (1 + (j + n)) = .nil) :
    Feeds (fieldArg f) ok (1 + j) self ((List.range' j n).map fun i => rawgeti es (1 + i)) (opened f es self) := by
  have hlook : ∀ self, Opens f es self →
      lookup { fieldArg f with index := 1 + j } self = .ok (some (rawgeti es (1 + j)), opened f es self) :=
    fun self ho => lookup_item ho hkey { fieldArg f with index := 1 + j } rfl rfl rfl (by simp only; omega)
  induction n generalizing j self with
  | zero =>
    rw [Nat.add_zero] at hend
    by_cases hfar : 2 ^ 31 ≤ 1 + j
    · exact .far hfar
    · have hlast := hlook self ho
      rw [hend (by omega)] at hlast
      exact .last hlast
  | succ n ih =>
    obtain ⟨hnil, hok⟩ := hitems j (by omega)
    have hstep : j + (n + 1) = j + 1 + n := by omega
    rw [hstep] at hitems hend
    refine .item (hlook self ho) hnil hok ?_
    exact ih ho.opened hitems hend
      fun self ho => lookup_item ho hkey { fieldArg f with index := 1 + (j + 1) } rfl rfl rfl (by simp only; omega)

theorem array_length {vs : List Value} (hes : es.Perm (arrayEntries 1 vs)) (hnil : ∀ v ∈ vs, v.isNil = false) :
    es.length = vs.length := by
  have hvals := congrArg List.length (arrayEntries_values hnil 1)
  rw [List.length_map] at hvals
  rw [hes.length_eq, hvals]

/-- The values of an array are read at their indices. -/
theorem feeds_array (ho : Opens f es self) (hkey : f.key < 0) {ok : Value → Prop} {vs : List Value} (hes : es.Perm (arrayEntries 1 vs))
    (hnil : ∀ v ∈ vs, v.isNil = false) (hok : ∀ v ∈ vs, ok v) :
    Feeds (fieldArg f) ok 1 self (Space.arrayValues f (.table es)) (opened f es self) := by
  have hlen := array_length hes hnil
  rw [Space.arrayValues, if_neg (by omega), List.range_eq_range']
  show Feeds (fieldArg f) ok (1 + 0) self _ _
  refine feeds_range ho hkey ?_ ?_
  · intro i hi
    have hmem := rawgeti_mem hes hnil (show i < vs.length by omega)
    exact ⟨hnil _ hmem, hok _ hmem⟩
  · intro hlt
    exact rawgeti_behind hes (by omega) (by omega)

/-- The values of a map are read in its order. -/
theorem feeds_map (ho : Opens f es self) (hkey : 0 ≤ f.key) {ok : Value → Prop} {rest : Entries} {k : Nat} (hk : 0 < k)
    (hrest : es.drop self.iter = rest) (hnil : ∀ p ∈ rest, p.2.isNil = false) (hok : ∀ p ∈ rest, ok p.2) :
    Feeds (fieldArg f) ok k self (rest.map Prod.snd) (atPair f es 0 self) := by
  induction rest generalizing k self with
  | nil =>
    have hlook := lookup_pair ho hkey { fieldArg f with index := k } rfl rfl rfl hk
    rw [List.getElem?_eq_none (List.drop_eq_nil_iff.mp hrest)] at hlook
    exact .last hlook
  | cons p rest ih =>
    have hget : es[self.iter]? = some p := by
      rw [← List.head?_drop, hrest, List.head?_cons]
    have hnext : es.drop (self.iter + 1) = rest := by
      rw [← List.tail_drop, hrest, List.tail_cons]
    have hlook := lookup_pair ho hkey { fieldArg f with index := k } rfl rfl rfl hk
    rw [hget] at hlook
    have ho' : Opens f es (atPair f es (self.iter + 1) self) := ⟨ho.tbl, fun _ => rfl⟩
    exact .item hlook (hnil p (List.mem_cons_self ..)) (hok p (List.mem_cons_self ..))
      (ih ho' (Nat.succ_pos k) hnext (fun q hq => hnil q (List.mem_cons_of_mem _ hq)) fun q hq => hok q (List.mem_cons_of_mem _ hq))

theorem arrayValues_length (hkey : f.key < 0) {vs : List Value} (hes : es.Perm (arrayEntries 1 vs)) (hnil : ∀ v ∈ vs, v.isNil = false) :
    (Space.arrayValues f (.table es)).length = vs.length := by
  rw [Space.arrayValues, if_neg (by omega), List.length_map, List.length_range, array_length hes hnil]

/-- An array that a buffer has room for is the list of its values. -/
theorem arrayValues_eq (hkey : f.key < 0) {vs : List Value} (hes : es.Perm (arrayEntries 1 vs)) (hnil : ∀ v ∈ vs, v.isNil = false)
    (hlen : (Space.arrayValues f (.table es)).length < 2 ^ 31) : Space.arrayValues f (.table es) = vs := by
  rw [arrayValues_length hkey hes hnil] at hlen
  rw [Space.arrayValues, if_neg (by omega), array_length hes hnil]
  apply List.ext_getElem?
  intro j
  rw [List.getElem?_map]
  by_cases hj : j < vs.length
  · have hget := rawgeti_array hes hnil (by omega) (Nat.le_of_lt hj)
    rw [List.getElem?_eq_getElem hj] at hget ⊢
    rw [List.getElem?_range hj, Option.map_some, hget]
    rfl
  · rw [List.getElem?_eq_none (by rw [List.length_range]; omega), List.getElem?_eq_none (by omega)]
    rfl

/-- The items of the array of a field are in the buffer. -/
def ItemsDone (ts : List SprotoType) (left : Nat) (f : Field) (es : Entries) (self : EncodeUd) (room n : Nat) (r : ArrayResult)
    (ud : EncodeUd) : Prop :=
  ∃ body, r = .done body ∧ body.length = n ∧ n ≤ room ∧ FieldWire ts (TableWire ts left) f (.table es) (.data (filled body)) ∧
    Left f self ud

theorem integers_obey (ha : f.array = true) (hkey : f.key < 0) (ht : f.type = .integer) {xs : List (BitVec 64)}
    (hes : es.Perm (arrayEntries 1 (xs.map .integer))) (ho : Opens f es self) (hiter : self.iter = 0) (hroom : room < 2 ^ 31) :
    Obeys .fail (ItemsDone ts left f es self room) (encodeItems (encode co ts (left + 1)) (fieldArg f) room self)
      (Space.items ts (Space.table ts left) f (Space.arrayValues f (.table es)) room) := by
  have hnil : ∀ v ∈ xs.map Value.integer, v.isNil = false := by
    intro v hv
    obtain ⟨x, -, rfl⟩ := List.mem_map.mp hv
    rfl
  have hfeed : Feeds (fieldArg f) IsInteger 1 self (Space.arrayValues f (.table es)) (opened f es self) := by
    refine feeds_array ho hkey hes hnil ?_
    intro v hv
    obtain ⟨x, -, rfl⟩ := List.mem_map.mp hv
    exact ⟨x, rfl⟩
  have htype : (fieldArg f).type = .integer := ht
  have hrun : Obeys .fail _ (encodeIntegerArray (encode co ts (left + 1)) (fieldArg f) room self) _ :=
    encodeIntegerArray_obeys ht hroom hfeed
  rw [encodeItems, htype, Space.items, ht]
  refine hrun.imp ?_
  rintro n r ud ⟨body, rfl, hlen, hle, rfl, rfl⟩
  have hcount := length_le_integersBody ((Space.arrayValues f (.table es)).map Space.integerOf)
  rw [List.length_map] at hcount
  have hvs := arrayValues_eq hkey hes hnil (by omega)
  have hxs : (xs.map Value.integer).map Space.integerOf = xs := by
    rw [List.map_map]
    exact List.map_id xs
  refine ⟨_, rfl, hlen, hle, ?_, rfl, .inr rfl, hiter⟩
  rw [hvs, hxs]
  exact .integers ha ht hes

theorem booleans_obey (ha : f.array = true) (hkey : f.key < 0) (ht : f.type = .boolean) {bs : List Bool}
    (hes : es.Perm (arrayEntries 1 (bs.map .boolean))) (ho : Opens f es self) (hiter : self.iter = 0) (hroom : room + 1 < 2 ^ 31) :
    Obeys .fail (ItemsDone ts left f es self room) (encodeItems (encode co ts (left + 1)) (fieldArg f) room self)
      (Space.items ts (Space.table ts left) f (Space.arrayValues f (.table es)) room) := by
  have hnil : ∀ v ∈ bs.map Value.boolean, v.isNil = false := by
    intro v hv
    obtain ⟨x, -, rfl⟩ := List.mem_map.mp hv
    rfl
  have hfeed : Feeds (fieldArg f) IsBoolean 1 self (Space.arrayValues f (.table es)) (opened f es self) := by
    refine feeds_array ho hkey hes hnil ?_
    intro v hv
    obtain ⟨x, -, rfl⟩ := List.mem_map.mp hv
    exact ⟨x, rfl⟩
  have htype : (fieldArg f).type = .boolean := ht
  have hrun : Obeys .fail _ (encodeBooleans (encode co ts (left + 1)) (fieldArg f) (room + 2) 1 [] room self) _ :=
    encodeBooleans_obeys ht hfeed (by omega) (by omega)
  rw [encodeItems, htype, Space.items, ht]
  refine hrun.imp ?_
  rintro n r ud ⟨rfl, rfl, hle, rfl⟩
  have hvs := arrayValues_eq hkey hes hnil (by omega)
  have hbs : (bs.map Value.boolean).map (booleanByte ∘ booleanOf) = bs.map booleanByte := by
    rw [List.map_map]
    rfl
  refine ⟨_, rfl, by rw [List.nil_append, List.length_map], hle, ?_, rfl, .inr rfl, hiter⟩
  rw [hvs, hbs]
  exact .booleans ha ht hes

theorem ObjectsWire.length_le {t : FieldType} {ws : List Value} {body : Bytes} (h : ObjectsWire ts left t ws body) :
    ws.length ≤ body.length := by
  obtain ⟨bss, rfl, hbss⟩ := h
  induction hbss with
  | nil => exact Nat.le_refl 0
  | cons _ _ ih =>
    rw [List.map_cons, List.flatten_cons, List.length_append, filled_length, List.length_cons]
    omega

theorem spaceItems_objects {sub : SprotoType → Entries → Nat → Space Nat} (hint : f.type ≠ .integer) (hbool : f.type ≠ .boolean)
    (vs : List Value) (room : Nat) : Space.items ts sub f vs room = Space.objects (Space.object ts sub f.type) vs room := by
  unfold Space.items
  split
  · rename_i htype; exact absurd htype hint
  · rename_i htype; exact absurd htype hbool
  · rfl

/-- Objects that the callback finds. -/
theorem encodeItems_objects_obeys (hint : f.type ≠ .integer) (hbool : f.type ≠ .boolean)
    (hfeed : Feeds (fieldArg f) (ItemObeys co ts left f.type) 1 self ws self') (hroom : room + 1 < 2 ^ 31) :
    Obeys .fail (BodyDone (ObjectsWire ts left f.type ws) room self') (encodeItems (encode co ts (left + 1)) (fieldArg f) room self)
      (Space.items ts (Space.table ts left) f ws room) := by
  have hrun : Obeys .fail _ (encodeObjects (encode co ts (left + 1)) (fieldArg f) (room + 1) 1 [] room self) _ :=
    encodeObjects_obeys rfl hfeed (by omega) (by omega)
  rw [encodeItems_objects hint hbool, spaceItems_objects hint hbool]
  refine hrun.imp ?_
  rintro n r ud ⟨bs, rfl, hlen, hle, hwire, rfl⟩
  exact ⟨bs, rfl, hlen, hle, hwire, rfl⟩

theorem objects_obey (htables : TablesObey co ts left) (ha : f.array = true) (hkey : f.key < 0) (hint : f.type ≠ .integer)
    (hbool : f.type ≠ .boolean) {vs : List Value} (hes : es.Perm (arrayEntries 1 vs))
    (hvs : ∀ v ∈ vs, ItemOk ts (Fits ts left) f.type v) (ho : Opens f es self) (hiter : self.iter = 0) (hroom : room + 1 < 2 ^ 31) :
    Obeys .fail (ItemsDone ts left f es self room) (encodeItems (encode co ts (left + 1)) (fieldArg f) room self)
      (Space.items ts (Space.table ts left) f (Space.arrayValues f (.table es)) room) := by
  have hnil : ∀ v ∈ vs, v.isNil = false := fun v hv => (hvs v hv).isNil
  have hfeed : Feeds (fieldArg f) (ItemObeys co ts left f.type) 1 self (Space.arrayValues f (.table es)) (opened f es self) :=
    feeds_array ho hkey hes hnil fun v hv => item_obeys htables hint hbool (hvs v hv)
  refine (encodeItems_objects_obeys hint hbool hfeed hroom).imp ?_
  rintro n r ud ⟨body, rfl, hlen, hle, hwire, rfl⟩
  have hcount := hwire.length_le
  rw [arrayValues_eq hkey hes hnil (by omega)] at hwire
  obtain ⟨bss, rfl, hbss⟩ := hwire
  exact ⟨_, rfl, hlen, hle, .objects ha hkey hint hbool hes hbss, rfl, .inr rfl, hiter⟩

theorem map_obeys (htables : TablesObey co ts left) (ha : f.array = true) (hkey : 0 ≤ f.key) {i : Nat} {st : SprotoType}
    (ht : f.type = .struct i) (hst : ts[i]? = some st) (hd : Distinct es)
    (hes : ∀ p ∈ es, ∃ e, p.2 = .table e ∧ Fits ts left st e ∧ Keyed st f.key p.1 e) (ho : Opens f es self) (hiter : self.iter = 0)
    (hroom : room + 1 < 2 ^ 31) :
    Obeys .fail (ItemsDone ts left f es self room) (encodeItems (encode co ts (left + 1)) (fieldArg f) room self)
      (Space.items ts (Space.table ts left) f (Space.arrayValues f (.table es)) room) := by
  have hint : f.type ≠ .integer := by rw [ht]; nofun
  have hbool : f.type ≠ .boolean := by rw [ht]; nofun
  have hfeed : Feeds (fieldArg f) (ItemObeys co ts left f.type) 1 self (es.map Prod.snd) (atPair f es 0 self) := by
    refine feeds_map ho hkey Nat.one_pos (by rw [hiter, List.drop_zero]) ?_ ?_
    · intro p hp
      obtain ⟨e, he, -⟩ := hes p hp
      rw [he]
      rfl
    · intro p hp
      obtain ⟨e, he, hfits, -⟩ := hes p hp
      rw [he, ht]
      exact struct_obeys htables hst hfits
  rw [Space.arrayValues, if_pos hkey]
  refine (encodeItems_objects_obeys hint hbool hfeed hroom).imp ?_
  rintro n r ud ⟨body, rfl, hlen, hle, ⟨bss, rfl, hbss⟩, rfl⟩
  refine ⟨_, rfl, hlen, hle, .map ha hkey ht hst hd ?_ hbss, rfl, .inr rfl, rfl⟩
  intro p hp
  obtain ⟨e, he, -, hkeyed⟩ := hes p hp
  exact ⟨e, he, hkeyed⟩

/-! ### Fields -/

/-- The bytes of data of a field with a record. -/
def FieldResult.used : FieldResult → Option Nat
  | .inline _ => some 0
  | .data bs => some bs.length
  | _ => none

/-- A field with the value `v` is in the buffer. -/
def FieldDone (ts : List SprotoType) (left : Nat) (f : Field) (v : Value) (self : EncodeUd) (room : Nat) (u : Option Nat)
    (r : FieldResult) (ud : EncodeUd) : Prop :=
  ((v = .nil ∧ r = .absent) ∨ (v.isNil = false ∧ FieldWire ts (TableWire ts left) f v r)) ∧ u = r.used ∧ r.size ≤ room ∧
    Left f self ud

/-- An array, behind its length. -/
theorem array_obeys (ha : f.array = true)
    (hitems : ∀ room, room + 1 < 2 ^ 31 → Obeys .fail (ItemsDone ts left f es self room)
      (encodeItems (encode co ts (left + 1)) (fieldArg f) room self)
      (Space.items ts (Space.table ts left) f (Space.arrayValues f (.table es)) room)) (hroom : room < 2 ^ 31) :
    Obeys .fail (FieldDone ts left f (.table es) self room) (encodeField (encode co ts (left + 1)) f room self)
      (Space.field ts (Space.table ts left) f (.table es) room) := by
  have hL : SIZEOF_LENGTH = 4 := rfl
  rw [encodeField, if_pos ha, Space.field, if_pos ha, encodeArray, hL]
  by_cases hfit : room < 4
  · rw [if_pos hfit, if_pos hfit]
    exact ⟨self, rfl⟩
  rw [if_neg hfit, if_neg hfit, bind_assoc]
  refine (hitems (room - 4) (by omega)).bind (fun ud => ⟨ud, rfl⟩) ?_
  rintro n r ud ⟨body, rfl, hlen, hle, hwire, hleft⟩
  have hsize := filled_length body
  refine ⟨.data (filled body), ud, rfl, .inr ⟨rfl, hwire⟩, ?_, ?_, hleft⟩
  · simp only [FieldResult.used, hsize, hlen]
    rfl
  · simp only [FieldResult.size, hsize, hlen]
    omega

/-- An array that is not there. -/
theorem noarray_obeys (h : getfield self.tbl f.name = .nil) (htag : self.arrayTag ≠ some f.tag) :
    Obeys .fail (fun _ r ud => r = .noarray ∧ ud = opened f [] self) (encodeItems (encode co ts (left + 1)) (fieldArg f) room self)
      (Space.items ts (Space.table ts left) f [] room) := by
  have hL : SIZEOF_LENGTH = 4 := rfl
  have hcb : ∀ len, encode co ts (left + 1) { fieldArg f with length := len, index := 1 } self = .ok (.noarray, opened f [] self) :=
    fun len => encode_noarray (lookup_noarray h htag { fieldArg f with length := len, index := 1 } rfl rfl Nat.one_pos)
  have hdone : Obeys ArrayResult.fail (fun (_ : Nat) r ud => r = .noarray ∧ ud = opened f [] self)
      (.ok (.noarray, opened f [] self)) (.fits 0) := ⟨_, _, rfl, rfl, rfl⟩
  have hobjects : Obeys .fail (fun _ r ud => r = .noarray ∧ ud = opened f [] self)
      (encodeObjects (encode co ts (left + 1)) (fieldArg f) (room + 1) 1 [] room self)
      (Space.objects (Space.object ts (Space.table ts left) f.type) [] room) := by
    rw [encodeObjects, Space.objects, hcb, hL]
    by_cases hfit : room < 4
    · rw [if_pos hfit, if_pos hfit]
      exact ⟨self, rfl⟩
    · rw [if_neg hfit, if_neg hfit]
      exact hdone
  cases ht : f.type with
  | integer =>
    have htype : (fieldArg f).type = .integer := ht
    rw [encodeItems, htype, Space.items, ht]
    simp only [encodeIntegerArray, Space.integerArray]
    by_cases hfit : room < 1
    · rw [if_pos hfit, if_pos hfit]
      exact ⟨self, rfl⟩
    · rw [if_neg hfit, if_neg hfit, encodeIntegers, hcb]
      exact hdone
  | boolean =>
    have htype : (fieldArg f).type = .boolean := ht
    rw [encodeItems, htype, Space.items, ht]
    simp only
    rw [encodeBooleans, hcb, Space.take, if_neg (by rw [List.length_nil]; omega)]
    exact hdone
  | string =>
    rw [encodeItems_objects (by rw [ht]; intro h; cases h) (by rw [ht]; intro h; cases h), spaceItems_objects (by rw [ht]; intro h; cases h) (by rw [ht]; intro h; cases h)]
    exact hobjects
  | struct i =>
    rw [encodeItems_objects (by rw [ht]; intro h; cases h) (by rw [ht]; intro h; cases h), spaceItems_objects (by rw [ht]; intro h; cases h) (by rw [ht]; intro h; cases h)]
    exact hobjects

theorem spaceField_object {sub : SprotoType → Entries → Nat → Space Nat} (ha : f.array = false) (hint : f.type ≠ .integer)
    (hbool : f.type ≠ .boolean) (v : Value) (room : Nat) : Space.field ts sub f v room =
      if room < 4 then .short
      else if v.isNil then .fits none
      else (Space.object ts sub f.type v (room - 4)).bind fun n => .fits (some (n + 4)) := by
  rw [Space.field, if_neg (by rw [ha]; decide)]
  split
  · rename_i htype; exact absurd htype hint
  · rename_i htype; exact absurd htype hbool
  · rfl

theorem spaceField_number {sub : SprotoType → Entries → Nat → Space Nat} (ha : f.array = false)
    (hnum : f.type = .integer ∨ f.type = .boolean) (v : Value) (room : Nat) : Space.field ts sub f v room =
      if v.isNil then .fits none else (Space.number v room).bind fun n => .fits (some n) := by
  rw [Space.field, if_neg (by rw [ha]; decide)]
  rcases hnum with ht | ht <;> rw [ht]

/-- A field that is not there. -/
theorem absent_obeys (h : getfield self.tbl f.name = .nil) (htag : self.arrayTag ≠ some f.tag) (hiter : self.iter = 0) :
    Obeys .fail (FieldDone ts left f .nil self room) (encodeField (encode co ts (left + 1)) f room self)
      (Space.field ts (Space.table ts left) f .nil room) := by
  have hL : SIZEOF_LENGTH = 4 := rfl
  have habsent : ∀ self', Left f self self' → FieldDone ts left f .nil self room none .absent self' :=
    fun self' hleft => ⟨.inl ⟨rfl, rfl⟩, rfl, Nat.zero_le _, hleft⟩
  by_cases ha : f.array = true
  · rw [encodeField, if_pos ha, Space.field, if_pos ha, encodeArray, hL]
    by_cases hfit : room < 4
    · rw [if_pos hfit, if_pos hfit]
      exact ⟨self, rfl⟩
    rw [if_neg hfit, if_neg hfit, bind_assoc]
    refine (noarray_obeys h htag).bind (fun ud => ⟨ud, rfl⟩) ?_
    rintro n r ud ⟨rfl, rfl⟩
    exact ⟨_, _, rfl, habsent _ ⟨rfl, .inr rfl, hiter⟩⟩
  have ha : f.array = false := Bool.not_eq_true _ ▸ ha
  have hcb : ∀ len, encode co ts (left + 1) { fieldArg f with length := len } self = .ok (.nil, self) := by
    intro len
    apply encode_nil
    rw [← h]
    exact lookup_field rfl rfl
  have hself : Left f self self := ⟨rfl, .inl rfl, hiter⟩
  by_cases hnum : f.type = .integer ∨ f.type = .boolean
  · rw [encodeField_number ha hnum, spaceField_number ha hnum, encodeNumber, hcb]
    exact ⟨_, self, rfl, habsent self hself⟩
  · obtain ⟨hint, hbool⟩ := not_or.mp hnum
    rw [encodeField_object ha hint hbool, spaceField_object ha hint hbool, encodeObject, hL, hcb]
    by_cases hfit : room < 4
    · rw [if_pos hfit, if_pos hfit]
      exact ⟨self, rfl⟩
    · rw [if_neg hfit, if_neg hfit]
      exact ⟨_, self, rfl, habsent self hself⟩

theorem integer_obeys (ha : f.array = false) (ht : f.type = .integer) {x : BitVec 64} (hv : getfield self.tbl f.name = .integer x)
    (hiter : self.iter = 0) :
    Obeys .fail (FieldDone ts left f (.integer x) self room) (encodeField (encode co ts (left + 1)) f room self)
      (Space.field ts (Space.table ts left) f (.integer x) room) := by
  have hself : Left f self self := ⟨rfl, .inl rfl, hiter⟩
  have htake : Space.number (.integer x) room =
      if x.toNat < 0x7fff then .fits 0 else Space.take ((integerBytes x).length + 4) room := by
    simp only [Space.number, integerBytes]
    by_cases hx : Small x
    · rw [if_pos hx, if_pos hx, Endian.le_length]
    · rw [if_neg hx, if_neg hx, Endian.le_length]
  rw [encodeField_number ha (.inl ht), spaceField_number ha (.inl ht), if_neg (by exact Bool.false_ne_true), encodeNumber_integer ht hv,
    htake]
  by_cases hinline : x.toNat < 0x7fff
  · rw [if_pos hinline, if_pos hinline]
    exact ⟨_, self, rfl, .inr ⟨rfl, .inline ha ht hinline⟩, rfl, Nat.zero_le _, hself⟩
  rw [if_neg hinline, if_neg hinline, Space.take]
  by_cases hfit : room < (integerBytes x).length + 4
  · rw [if_pos hfit, if_pos hfit]
    exact ⟨self, rfl⟩
  · rw [if_neg hfit, if_neg hfit]
    have hsize := filled_length (integerBytes x)
    refine ⟨.data (filled (integerBytes x)), self, rfl, .inr ⟨rfl, .integer ha ht⟩, ?_, ?_, hself⟩
    · simp only [FieldResult.used, hsize]
    · simp only [FieldResult.size, hsize]
      omega

theorem boolean_obeys (ha : f.array = false) (ht : f.type = .boolean) {b : Bool} (hv : getfield self.tbl f.name = .boolean b)
    (hiter : self.iter = 0) :
    Obeys .fail (FieldDone ts left f (.boolean b) self room) (encodeField (encode co ts (left + 1)) f room self)
      (Space.field ts (Space.table ts left) f (.boolean b) room) := by
  rw [encodeField_number ha (.inr ht), spaceField_number ha (.inr ht), encodeNumber_boolean ht hv]
  exact ⟨_, self, rfl, .inr ⟨rfl, .boolean ha ht⟩, rfl, Nat.zero_le _, rfl, .inl rfl, hiter⟩

theorem object_obeys (ha : f.array = false) (hint : f.type ≠ .integer) (hbool : f.type ≠ .boolean) {v : Value}
    (hv : getfield self.tbl f.name = v) (hnil : v.isNil = false) (hiter : self.iter = 0) (hroom : room < 2 ^ 31)
    (h : ItemObeys co ts left f.type v) :
    Obeys .fail (FieldDone ts left f v self room) (encodeField (encode co ts (left + 1)) f room self)
      (Space.field ts (Space.table ts left) f v room) := by
  have hL : SIZEOF_LENGTH = 4 := rfl
  have hcb : ∀ len, encode co ts (left + 1) { fieldArg f with length := len } self = _ :=
    fun len => encode_lookup (show lookup { fieldArg f with length := len } self = .ok (some v, self) from hv ▸ lookup_field rfl rfl) hnil
  rw [encodeField_object ha hint hbool, spaceField_object ha hint hbool, encodeObject, hL, hcb, hnil]
  by_cases hfit : room < 4
  · rw [if_pos hfit, if_pos hfit]
    exact ⟨self, rfl⟩
  rw [if_neg hfit, if_neg hfit, if_neg (by decide), bind_assoc]
  refine (h { fieldArg f with length := room - 4 } self rfl (by simp only; omega)).bind (fun ud => ⟨ud, rfl⟩) ?_
  rintro n r ud ⟨⟨bs, rfl, hlen, hle, hwire⟩, rfl⟩
  simp only at hle ⊢
  rw [if_neg (by omega)]
  have hsize := filled_length bs
  refine ⟨.data (filled bs), ud, rfl, .inr ⟨hnil, .object ha hwire⟩, ?_, ?_, rfl, .inl rfl, hiter⟩
  · simp only [FieldResult.used, hsize, hlen]
  · simp only [FieldResult.size, hsize, hlen]
    omega

/-- A field whose value conforms to it. -/
theorem present_obeys (htables : TablesObey co ts left) {v : Value}
    (h : (f.key < 0 ∧ FieldOk ts (Fits ts left) f v) ∨ (0 ≤ f.key ∧ MapOk ts (Fits ts left) f v))
    (hv : getfield self.tbl f.name = v) (htag : self.arrayTag ≠ some f.tag) (hiter : self.iter = 0) (hroom : room < 2 ^ 31) :
    Obeys .fail (FieldDone ts left f v self room) (encodeField (encode co ts (left + 1)) f room self)
      (Space.field ts (Space.table ts left) f v room) := by
  rcases h with ⟨hkey, h⟩ | ⟨hkey, h⟩
  · cases h with
    | item ha hok =>
      by_cases hint : f.type = .integer
      · rw [hint] at hok
        cases hok with
        | integer x => exact integer_obeys ha hint hv hiter
      by_cases hbool : f.type = .boolean
      · rw [hbool] at hok
        cases hok with
        | boolean b => exact boolean_obeys ha hbool hv hiter
      · exact object_obeys ha hint hbool hv hok.isNil hiter hroom (item_obeys htables hint hbool hok)
    | @array es vs ha hes hvs =>
      refine array_obeys ha (fun room hroom => ?_) hroom
      have ho : Opens f es self := ⟨hv, fun h => absurd h htag⟩
      by_cases hint : f.type = .integer
      · obtain ⟨xs, rfl⟩ : vs ∈ Set.range (List.map Value.integer) := by
          rw [Set.range_list_map]
          intro v hv
          have hok := hvs v hv
          rw [hint] at hok
          cases hok with
          | integer x => exact ⟨x, rfl⟩
        exact integers_obey ha hkey hint hes ho hiter (by omega)
      by_cases hbool : f.type = .boolean
      · obtain ⟨bs, rfl⟩ : vs ∈ Set.range (List.map Value.boolean) := by
          rw [Set.range_list_map]
          intro v hv
          have hok := hvs v hv
          rw [hbool] at hok
          cases hok with
          | boolean b => exact ⟨b, rfl⟩
        exact booleans_obey ha hkey hbool hes ho hiter hroom
      · exact objects_obey htables ha hkey hint hbool hes hvs ho hiter hroom
  · cases h with
    | @map i st es ha ht hst hd hes =>
      have ho : Opens f es self := ⟨hv, fun h => absurd h htag⟩
      exact array_obeys ha (fun room hroom => map_obeys htables ha hkey ht hst hd hes ho hiter hroom) hroom

/-- A field of the table. -/
theorem field_obeys (htables : TablesObey co ts left)
    (hok : (getfield es f.name).isNil = false → (f.key < 0 ∧ FieldOk ts (Fits ts left) f (getfield es f.name)) ∨
      (0 ≤ f.key ∧ MapOk ts (Fits ts left) f (getfield es f.name)))
    (htbl : self.tbl = es) (htag : self.arrayTag ≠ some f.tag) (hiter : self.iter = 0) (hroom : room < 2 ^ 31) :
    Obeys .fail (FieldDone ts left f (getfield es f.name) self room) (encodeField (encode co ts (left + 1)) f room self)
      (Space.field ts (Space.table ts left) f (getfield es f.name) room) := by
  cases hnil : (getfield es f.name).isNil with
  | true =>
    have hv := eq_nil_of_isNil hnil
    rw [hv]
    exact absent_obeys (by rw [htbl, hv]) htag hiter
  | false => exact present_obeys htables (hok hnil) (by rw [htbl]) htag hiter hroom

/-! ### The fields of a table -/

/-- The fields are in the buffer: `n` bytes of records and data behind what was there. -/
def FieldsDone (ts : List SprotoType) (left : Nat) (es : Entries) (fs : List Field) (v : EncodeVars) (n : Nat) (r : EncodeResult)
    (_ : EncodeUd) : Prop :=
  ∃ (code : List (Field × FieldResult)) (v' : EncodeVars), r = .done v' ∧ code.map Prod.fst = fs ∧
    (∀ c ∈ code, Codes ts (TableWire ts left) es c) ∧ v'.records = v.records ++ (layout v.lasttag code).1 ∧
    v'.data = v.data ++ (layout v.lasttag code).2 ∧ n = 2 * (layout v.lasttag code).1.length + (layout v.lasttag code).2.length ∧
    (layout v.lasttag code).2.length ≤ v.size

/-- The record of a field that is present, with the data `bs`. -/
structure Recorded (f : Field) (value : Nat) (bs : Bytes) (v w : EncodeVars) : Prop where
  records : w.records = v.records ++ (skips v.lasttag f ++ [value])
  data : w.data = v.data ++ bs
  size : w.size = v.size - bs.length
  lasttag : w.lasttag = f.tag

theorem addRecord_recorded {maxn value : Nat} {bs : Bytes} {v : EncodeVars} (hlast : -1 ≤ v.lasttag) (htag : f.tag < 0x7fff)
    (hfit : v.records.length + (skips v.lasttag f).length + 1 ≤ maxn) :
    ∃ w, addRecord maxn f value { v with data := v.data ++ bs, size := v.size - bs.length } = .ok (some w) ∧
      Recorded f value bs v w := by
  refine ⟨_, addRecord_spec hlast htag ?_, rfl, rfl, rfl, rfl⟩
  simp only [List.length_append, List.length_singleton]
  omega

theorem FieldsDone.cons {fs : List Field} {v w : EncodeVars} {value m : Nat} {bs : Bytes} {r₀ : FieldResult} {r : EncodeResult}
    {ud : EncodeUd} (hcode : Codes ts (TableWire ts left) es (f, r₀))
    (hlayout : ∀ code, layout v.lasttag ((f, r₀) :: code) =
      (skips v.lasttag f ++ value :: (layout f.tag code).1, bs ++ (layout f.tag code).2))
    (hrec : Recorded f value bs v w) (hle : bs.length ≤ v.size) (h : FieldsDone ts left es fs w m r ud) :
    FieldsDone ts left es (f :: fs) v (2 * ((skips v.lasttag f).length + 1) + bs.length + m) r ud := by
  obtain ⟨code, v', rfl, hfst, hcodes, hr, hd, hm, hsize⟩ := h
  have hws := hrec.size
  rw [hrec.lasttag] at hr hd hm hsize
  refine ⟨(f, r₀) :: code, v', rfl, by rw [List.map_cons, hfst], ?_, ?_, ?_, ?_, ?_⟩
  · intro c hc
    rcases List.mem_cons.mp hc with rfl | hc
    · exact hcode
    · exact hcodes c hc
  · rw [hr, hrec.records, hlayout]
    simp only [List.append_assoc, List.cons_append, List.nil_append]
  · rw [hd, hrec.data, hlayout, List.append_assoc]
  · rw [hlayout]
    simp only [List.length_append, List.length_cons]
    omega
  · rw [hlayout]
    simp only [List.length_append]
    omega

theorem encodeFields_obeys (htables : TablesObey co ts left) {maxn : Nat} {fs : List Field} {v : EncodeVars} {prev : Int}
    (hok : ∀ f ∈ fs, (getfield es f.name).isNil = false → (f.key < 0 ∧ FieldOk ts (Fits ts left) f (getfield es f.name)) ∨
      (0 ≤ f.key ∧ MapOk ts (Fits ts left) f (getfield es f.name)))
    (hasc : Ascending prev fs) (hlast : -1 ≤ v.lasttag) (hle : v.lasttag ≤ prev) (htags : ∀ f ∈ fs, f.tag < 0x7fff)
    (hfit : v.records.length + fs.length + gaps prev fs + (if v.lasttag < prev then 1 else 0) ≤ maxn) (hsize : v.size < 2 ^ 31)
    (htbl : self.tbl = es) (hiter : self.iter = 0) (hnew : ∀ f ∈ fs, self.arrayTag ≠ some f.tag) :
    Obeys .fail (FieldsDone ts left es fs v) (encodeFields (encode co ts (left + 1)) maxn fs v self)
      (Space.fields ts (Space.table ts left) es fs v.lasttag v.size) := by
  induction fs generalizing v self prev with
  | nil => exact ⟨_, self, rfl, [], v, rfl, rfl, by simp, by rw [layout, List.append_nil], by rw [layout, List.append_nil], rfl, Nat.zero_le _⟩
  | cons f fs ih =>
    obtain ⟨hlt, hasc'⟩ := hasc
    have hok' := fun g hg => hok g (List.mem_cons_of_mem f hg)
    have htags' := fun g hg => htags g (List.mem_cons_of_mem f hg)
    have htag := htags f (List.mem_cons_self ..)
    have hself := hnew f (List.mem_cons_self ..)
    have hfield : Obeys .fail _ (encodeField (encode co ts (left + 1)) f v.size self) _ :=
      field_obeys htables (hok f (List.mem_cons_self ..)) htbl hself hiter hsize
    -- a record for tags that are skipped is paid for by a gap or by a field that is absent
    have hskip : (skips v.lasttag f).length ≤ (if prev + 1 < f.tag then 1 else 0) + (if v.lasttag < prev then 1 else 0) := by
      unfold skips
      split
      · simp only [List.length_singleton]
        split <;> split <;> omega
      · exact Nat.zero_le _
    rw [List.length_cons, gaps] at hfit
    rw [encodeFields, Space.fields]
    refine hfield.bind (fun ud => ⟨ud, rfl⟩) ?_
    rintro u r ud ⟨hcase, rfl, hdata, hleft⟩
    have hnew' := hleft.fresh hasc' fun g hg => hnew g (List.mem_cons_of_mem f hg)
    have htbl' := hleft.tbl.trans htbl
    have hcode : Codes ts (TableWire ts left) es (f, r) := hcase
    have hput : ∀ (value : Nat) (bs : Bytes) (w : EncodeVars), Recorded f value bs v w →
        Obeys .fail (FieldsDone ts left es fs w) (encodeFields (encode co ts (left + 1)) maxn fs w ud)
          (Space.fields ts (Space.table ts left) es fs f.tag (v.size - bs.length)) := by
      intro value bs w hrec
      have hlen := congrArg List.length hrec.records
      simp only [List.length_append, List.length_singleton] at hlen
      have hrun := ih (v := w) hok' hasc' (by rw [hrec.lasttag]; omega) (by rw [hrec.lasttag]) htags'
        (by rw [hrec.lasttag, if_neg (by omega)]; omega) (by rw [hrec.size]; omega) htbl' hleft.iter hnew'
      rwa [hrec.lasttag, hrec.size] at hrun
    rcases hcase with ⟨hnil, rfl⟩ | ⟨hnil, hwire⟩
    · have hrest : Obeys .fail (FieldsDone ts left es fs v) (encodeFields (encode co ts (left + 1)) maxn fs v ud)
          (Space.fields ts (Space.table ts left) es fs v.lasttag v.size) :=
        ih hok' hasc' hlast (by omega) htags' (by split <;> split at hfit <;> omega) hsize htbl' hleft.iter hnew'
      refine hrest.imp ?_
      rintro n r ud ⟨code, v', rfl, hfst, hcodes, hr, hd, hn, hle'⟩
      refine ⟨(f, .absent) :: code, v', rfl, by rw [List.map_cons, hfst], ?_, hr, hd, hn, hle'⟩
      intro c hc
      rcases List.mem_cons.mp hc with rfl | hc
      · exact hcode
      · exact hcodes c hc
    · rcases hwire.shape with ⟨n, -, rfl⟩ | ⟨body, rfl⟩
      · obtain ⟨w, hadd, hrec⟩ : ∃ w, addRecord maxn f ((n + 1) * 2) _ = .ok (some w) ∧ Recorded f ((n + 1) * 2) [] v w :=
          addRecord_recorded hlast htag (by omega)
        rw [List.append_nil] at hadd
        have hadd : addRecord maxn f ((n + 1) * 2) v = .ok (some w) := hadd
        simp only [putField, hadd, bind, Except.bind, FieldResult.used]
        refine (hput _ _ _ hrec).map ?_
        intro m r ud h
        exact h.cons hcode (fun _ => rfl) hrec (Nat.zero_le _)
      · obtain ⟨w, hadd, hrec⟩ : ∃ w, addRecord maxn f 0 _ = .ok (some w) ∧ Recorded f 0 (filled body) v w :=
          addRecord_recorded hlast htag (by omega)
        simp only [putField, hadd, bind, Except.bind, FieldResult.used]
        refine (hput _ _ _ hrec).map ?_
        intro m r ud h
        exact h.cons hcode (fun _ => rfl) hrec hdata

/-! ### Tables -/

/-- A table of a level, if the tables below it do what their space says. -/
theorem table_obeys {n : Nat} {st : SprotoType} (htables : TablesObey co ts left) (hwf : Valid n st) (hok : Fits ts (left + 1) st es)
    (hroom : room < 2 ^ 31) :
    Obeys none (fun n r _ => ∃ bs, r = some bs ∧ bs.length = n ∧ n ≤ room ∧ TableWire ts (left + 1) st es bs)
      (sprotoEncode (encode co ts (left + 1)) st room (encodeUd es)) (Space.table ts (left + 1) st es room) := by
  have hH : SIZEOF_HEADER = 2 := rfl
  have hF : SIZEOF_FIELD = 2 := rfl
  obtain ⟨hasc, hmaxn, -⟩ := maxn_base hwf.imported
  simp only [sprotoEncode, hH, hF]
  rw [Space.table, Space.take, Nat.mul_comm 2]
  by_cases hfit : room < 2 + st.maxn * 2
  · rw [if_pos hfit, if_pos hfit]
    exact ⟨_, rfl⟩
  rw [if_neg hfit, if_neg hfit, Space.bind_fits]
  have hrun : Obeys .fail _ (encodeFields (encode co ts (left + 1)) st.maxn st.f
      { records := [], data := [], size := room - (2 + st.maxn * 2), lasttag := -1 } (encodeUd es)) _ :=
    encodeFields_obeys htables (fun f hf => hok.field hwf hf) hasc (Int.le_refl _) (Int.le_refl _) hwf.tags
      (by simp only [List.length_nil]; rw [if_neg (by omega)]; omega) (by simp only; omega) rfl rfl (fun _ _ h => by cases h)
  refine hrun.bind (fun ud => ⟨ud, rfl⟩) ?_
  rintro n r ud ⟨code, v', rfl, hfst, hcodes, hr, hd, rfl, hle⟩
  have hrecords := records_fit hwf.imported hfst
  have hlen := tableBytes_length code
  simp only [List.nil_append] at hr hd hle ⊢
  refine ⟨some (tableBytes code), ud, by rw [hr, hd]; rfl, _, rfl, ?_, ?_, code, hfst, hcodes, rfl⟩
  · omega
  · omega

/-- The empty table, at the deepest level. -/
theorem empty_obeys {st : SprotoType} (himp : importType st.f = some st) (hok : Fits ts 0 st es) :
    Obeys none (fun n r _ => ∃ bs, r = some bs ∧ bs.length = n ∧ n ≤ room ∧ TableWire ts 0 st es bs)
      (sprotoEncode (encode co ts 0) st room (encodeUd es)) (Space.table ts 0 st es room) := by
  have hH : SIZEOF_HEADER = 2 := rfl
  have hF : SIZEOF_FIELD = 2 := rfl
  obtain ⟨hf, rfl⟩ := hok
  have hmaxn : st.maxn = 0 := by
    obtain ⟨-, hmax, -⟩ := maxn_base himp
    rw [hmax, hf]; rfl
  simp only [sprotoEncode, hH, hF, hf, hmaxn, encodeFields]
  rw [Space.table, Space.take, hmaxn]
  by_cases hfit : room < 2
  · rw [if_pos (by omega), if_pos (by omega)]
    exact ⟨_, rfl⟩
  · rw [if_neg (by omega), if_neg (by omega)]
    exact ⟨_, _, rfl, tableBytes [], rfl, rfl, by omega, hf, rfl, rfl⟩

theorem tables_obey (hwf : ∀ st ∈ ts, Valid ts.length st) (left : Nat) : TablesObey co ts left := by
  induction left with
  | zero =>
    intro i st es room hst hok hroom
    exact empty_obeys (hwf st (List.mem_of_getElem? hst)).imported hok
  | succ left ih =>
    intro i st es room hst hok hroom
    exact table_obeys ih (hwf st (List.mem_of_getElem? hst)) hok hroom

end Encode

end Sproto
end Skynet
