import Skynet.Sproto.Wire

/-!
# Skynet.Sproto.Space

The bytes that a table takes in a buffer, by sizes only.

* `Space` : the encoder gives up, an array of integers is widened over the end of the buffer, or the value fits.
* `Space.integers` : `k` items of four bytes and then one of eight, where the bytes are fewer than `8 * k` but enough for a check
  of `4 * k + 8`, are the only cause for the second.
* `Space.table` : a table, with what is left of the buffer to each of its fields.
-/

namespace Skynet
namespace Sproto

open Lua

/-- What becomes of a value in a buffer. -/
inductive Space (α : Type) where
  | short
  | overrun
  | fits (a : α)
deriving Repr, DecidableEq

namespace Space

variable {α β : Type}

def bind : Space α → (α → Space β) → Space β
  | short, _ => short
  | overrun, _ => overrun
  | fits a, f => f a

@[simp] theorem bind_fits (a : α) (f : α → Space β) : bind (fits a) f = f a := rfl

@[simp] theorem bind_self (s : Space α) : s.bind fits = s := by
  cases s <;> rfl

/-- `n` bytes of `room`. -/
def take (n room : Nat) : Space Nat := if room < n then short else fits n

/-! ### Arrays -/

def integerOf : Value → BitVec 64
  | .integer v => v
  | _ => 0

/-- The items of an array of integers behind `k` of four bytes, where `room` bytes follow the byte of the width. Eight bytes are
asked for at every item. -/
def integers (room : Nat) : Nat → List Value → Space Nat
  | k, [] => fits (4 * k)
  | k, v :: vs =>
    if room < 4 * k + 8 then short
    else if Small (integerOf v) then integers room (k + 1) vs
    else if room < 8 * k then overrun
    else take (8 * (k + (v :: vs).length)) room

/-- The items before the first of eight bytes decide whether it is widened over the end. -/
theorem integers_append {vs ws : List Value} {w : Value} (hvs : ∀ v ∈ vs, Small (integerOf v)) (hw : ¬Small (integerOf w)) (room k : Nat) :
    integers room k (vs ++ w :: ws) =
      if room < 4 * (k + vs.length) + 8 then short
      else if room < 8 * (k + vs.length) then overrun
      else take (8 * (k + vs.length + (w :: ws).length)) room := by
  induction vs generalizing k with
  | nil => rw [List.nil_append, integers, if_neg hw]; rfl
  | cons v vs ih =>
    have hrest := ih (fun u hu => hvs u (List.mem_cons_of_mem v hu)) (k + 1)
    have hlen : k + (v :: vs).length = k + 1 + vs.length := by rw [List.length_cons]; omega
    rw [List.cons_append, integers, if_pos (hvs v (List.mem_cons_self ..)), hrest, hlen]
    by_cases hfit : room < 4 * k + 8
    · rw [if_pos hfit, if_pos (by omega)]
    · rw [if_neg hfit]

/-- The width and the items; nothing for an empty array. -/
def integerArray (vs : List Value) (room : Nat) : Space Nat :=
  if room < 1 then short
  else (integers (room - 1) 0 vs).bind fun n => fits (if vs = [] then 0 else n + 1)

/-- Objects, each behind its length; four bytes are asked for behind the last one too. -/
def objects (item : Value → Nat → Space Nat) : List Value → Nat → Space Nat
  | [], room => if room < 4 then short else fits 0
  | v :: vs, room =>
    if room < 4 then short
    else (item v (room - 4)).bind fun n => (objects item vs (room - 4 - n)).bind fun m => fits (n + 4 + m)

section Fields

variable (ts : List SprotoType) (sub : SprotoType → Entries → Nat → Space Nat)

/-- A string or a struct, without its length. -/
def object : FieldType → Value → Nat → Space Nat
  | .string, .string s, room => take s.length room
  | .struct i, .table es, room =>
    match ts[i]? with
    | some st => sub st es room
    | none => short
  | _, _, _ => short

def items (f : Field) (vs : List Value) (room : Nat) : Space Nat :=
  match f.type with
  | .integer => integerArray vs room
  | .boolean => take vs.length room
  | t => objects (object ts sub t) vs room

/-- The values of an array by their indices, or of a map in its order. -/
def arrayValues (f : Field) : Value → List Value
  | .table es => if 0 ≤ f.key then es.map Prod.snd else (List.range es.length).map fun j => rawgeti es (1 + j)
  | _ => []

/-! ### Fields -/

/-- The data of a number, where its record does not hold it. -/
def number (v : Value) (room : Nat) : Space Nat :=
  match v with
  | .integer x => if x.toNat < 0x7fff then fits 0 else if Small x then take 8 room else take 12 room
  | _ => fits 0

/-- The bytes of data of a field, if it has a record. -/
def field (f : Field) (v : Value) (room : Nat) : Space (Option Nat) :=
  if f.array then
    if room < 4 then short
    else (items ts sub f (arrayValues f v) (room - 4)).bind fun n => fits (if v.isNil then none else some (n + 4))
  else
    match f.type with
    | .integer | .boolean => if v.isNil then fits none else (number v room).bind fun n => fits (some n)
    | t =>
      if room < 4 then short
      else if v.isNil then fits none
      else (object ts sub t v (room - 4)).bind fun n => fits (some (n + 4))

/-- The records and the data of the fields behind the tag `last`. -/
def fields (es : Entries) : List Field → Int → Nat → Space Nat
  | [], _, _ => fits 0
  | f :: fs, last, room => (field ts sub f (getfield es f.name) room).bind fun
    | none => fields es fs last room
    | some n => (fields es fs f.tag (room - n)).bind fun m => fits (2 * ((skips last f).length + 1) + n + m)

end Fields

/-- A table in `room` bytes, with at most `left` levels. -/
def table (ts : List SprotoType) : Nat → SprotoType → Entries → Nat → Space Nat
  | 0, st, _, room => (take (2 + 2 * st.maxn) room).bind fun _ => fits 2
  | left + 1, st, es, room => (take (2 + 2 * st.maxn) room).bind fun header =>
      (fields ts (table ts left) es st.f (-1) (room - header)).bind fun n => fits (2 + n)

end Space

end Sproto
end Skynet
