import Skynet.Bson.Document

/-!
# Skynet.Bson.Emits

The bytes that the functions of the encoder put behind the ones in the buffer.

* `Emits f X` : `f` appends `X`, as long as there are less than `2 ^ 30` bytes.
* `Emits.bind`, `Emits.foldlM`, `Emits.framed` : the rules for a sequence, a loop, and bytes with their length in front.
-/

namespace Skynet
namespace Bson

open Lua
open Seri (toInt32)

structure Buffer.Ok (b : Buffer) : Prop where
  size : b.bytes.length ≤ b.cap
  cap : 0 < b.cap

theorem bsonCreate_ok : bsonCreate.Ok := ⟨Nat.zero_le _, by decide⟩

/-- `cap` is doubled until there is room. -/
theorem double_some {fuel cap n : Nat} (hcap : 0 < cap) (hle : cap ≤ n) (hn : n < 2 ^ 30) (hfuel : n < cap * 2 ^ fuel) :
    ∃ cap', double fuel cap n = some cap' ∧ n < cap' := by
  induction fuel generalizing cap with
  | zero => omega
  | succ fuel ih =>
    rw [double, if_neg (by omega)]
    by_cases hmore : cap * 2 ≤ n
    · rw [if_pos hmore]
      exact ih (by omega) hmore (by rw [Nat.mul_assoc, ← Nat.pow_succ']; exact hfuel)
    · rw [if_neg hmore]
      exact ⟨_, rfl, by omega⟩

theorem bsonReserve_ok {b : Buffer} {n : Nat} (hb : b.Ok) (h : b.bytes.length + n < 2 ^ 30) :
    ∃ cap, bsonReserve b n = .ok { b with cap := cap } ∧ b.bytes.length + n ≤ cap ∧ 0 < cap := by
  by_cases hroom : b.bytes.length + n ≤ b.cap
  · exact ⟨b.cap, if_pos (by omega), hroom, hb.cap⟩
  · have hto : ((b.bytes.length : Int) + n).toNat = b.bytes.length + n := by omega
    have hcap := hb.cap
    obtain ⟨cap, hdouble, hlt⟩ : ∃ cap, double 32 b.cap (b.bytes.length + n) = some cap ∧ b.bytes.length + n < cap :=
      double_some hcap (by omega) h (by omega)
    refine ⟨cap, ?_, by omega, by omega⟩
    rw [bsonReserve, if_neg (by omega), hto, hdouble]

/-- What is appended. -/
def Emits (f : Buffer → Except EncodeError Buffer) (X : Bytes) : Prop :=
  ∀ b, b.Ok → b.bytes.length + X.length < 2 ^ 30 → ∃ b', f b = .ok b' ∧ b'.bytes = b.bytes ++ X ∧ b'.Ok

namespace Emits

theorem write (bs : Bytes) : Emits (fun b => Bson.write b bs) bs := by
  intro b hb hfits
  obtain ⟨cap, hreserve, hroom, hcap⟩ := bsonReserve_ok hb hfits
  have hto : toInt32 bs.length = bs.length := by
    unfold toInt32
    rw [Int.bmod_eq_of_le] <;> omega
  refine ⟨{ bytes := b.bytes ++ bs, cap := cap }, ?_, rfl, by rw [List.length_append]; exact hroom, hcap⟩
  simp only [Bson.write, hto, hreserve]
  exact if_pos hroom

theorem nothing : Emits (fun b => .ok b) [] := fun b hb _ => ⟨b, rfl, (List.append_nil _).symm, hb⟩

theorem bind {f g : Buffer → Except EncodeError Buffer} {X Y : Bytes} (hf : Emits f X) (hg : Emits g Y) :
    Emits (fun b => f b >>= g) (X ++ Y) := by
  intro b hb hfits
  rw [List.length_append] at hfits
  obtain ⟨b₁, h₁, hbytes₁, hok₁⟩ := hf b hb (by omega)
  obtain ⟨b₂, h₂, hbytes₂, hok₂⟩ := hg b₁ hok₁ (by rw [hbytes₁, List.length_append]; omega)
  refine ⟨b₂, ?_, by rw [hbytes₂, hbytes₁, List.append_assoc], hok₂⟩
  simp only [h₁, Bind.bind, Except.bind]
  exact h₂

theorem foldlM {α : Type} {items : List α} {f : Buffer → α → Except EncodeError Buffer} {out : α → Bytes}
    (h : ∀ a ∈ items, Emits (fun b => f b a) (out a)) : Emits (fun b => items.foldlM f b) (items.flatMap out) := by
  induction items with
  | nil => exact nothing
  | cons a items ih =>
    simp only [List.foldlM_cons, List.flatMap_cons]
    exact (h a List.mem_cons_self).bind (ih fun x hx => h x (List.mem_cons_of_mem _ hx))

theorem appendKey (type : UInt8) (key : Bytes) : Emits (fun b => Bson.appendKey b type key) (type :: (key ++ [0])) :=
  (write [type]).bind (write (key ++ [0]))

end Emits

theorem writeLength_bytes {b : Buffer} {pre X : Bytes} (h : b.bytes = pre ++ ([0, 0, 0, 0] ++ X)) (v : BitVec 32) :
    (writeLength b v pre.length).bytes = pre ++ (Endian.le 4 v.toNat ++ X) := by
  have hdrop : (pre ++ ([0, 0, 0, 0] ++ X)).drop (pre.length + 4) = X := by
    rw [← List.append_assoc, show pre.length + 4 = (pre ++ [0, 0, 0, 0]).length by simp, List.drop_left]
  rw [writeLength, h, List.take_left, hdrop, List.append_assoc]

theorem writeLength_ok {b : Buffer} {pre X : Bytes} (h : b.bytes = pre ++ ([0, 0, 0, 0] ++ X)) (v : BitVec 32)
    (hb : b.Ok) :
    (writeLength b v pre.length).Ok := by
  have hsize := hb.size
  refine ⟨?_, hb.cap⟩
  rw [writeLength_bytes h v]
  rw [h] at hsize
  simp only [List.length_append, List.length_cons, List.length_nil, Endian.le_length] at hsize ⊢
  exact hsize

/-- Bytes in front of which there is room for a length. -/
theorem Emits.framed {body : Buffer → Except EncodeError Buffer} {last : Nat → Buffer → Except EncodeError Buffer}
    {X Y : Bytes} (hbody : Emits body X) (hlen : Y.length = 4 + X.length ∨ Y.length = 5 + X.length)
    (hlast : ∀ b pre, b.Ok → b.bytes = pre ++ ([0, 0, 0, 0] ++ X) → pre.length + Y.length < 2 ^ 30 →
      ∃ b', last pre.length b = .ok b' ∧ b'.bytes = pre ++ Y ∧ b'.Ok) :
    Emits (fun b => do
      let (length, b) ← reserveLength b
      let b ← body b
      last length b) Y := by
  intro b hb hfits
  obtain ⟨b₁, h₁, hbytes₁, hok₁⟩ := Emits.write [0, 0, 0, 0] b hb (by simp; omega)
  obtain ⟨b₂, h₂, hbytes₂, hok₂⟩ := hbody b₁ hok₁ (by rw [hbytes₁]; simp; omega)
  obtain ⟨b₃, h₃, hbytes₃, hok₃⟩ := hlast b₂ b.bytes hok₂ (by rw [hbytes₂, hbytes₁, List.append_assoc]) hfits
  refine ⟨b₃, ?_, hbytes₃, hok₃⟩
  simp only [reserveLength, h₁, Bind.bind, Except.bind, h₂]
  exact h₃

/-- A length that is written behind the bytes. -/
theorem Emits.withLength {body : Buffer → Except EncodeError Buffer} {X : Bytes} (hbody : Emits body X)
    (v : BitVec 32) :
    Emits (fun b => do
      let (length, b) ← reserveLength b
      let b ← body b
      .ok (writeLength b v length)) (Endian.le 4 v.toNat ++ X) := by
  refine @Emits.framed body (fun length b => .ok (writeLength b v length)) X _ hbody (by simp) ?_
  intro b pre hb hbytes hfits
  exact ⟨_, rfl, writeLength_bytes hbytes v, writeLength_ok hbytes v hb⟩

/-- A document, with its end and its length. -/
theorem Emits.document {body : Buffer → Except EncodeError Buffer} {X : Bytes} (hbody : Emits body X) :
    Emits (fun b => do
      let (length, b) ← reserveLength b
      let b ← body b
      finish b length) (wrap X) := by
  refine @Emits.framed body (fun length b => finish b length) X (wrap X) hbody
    (.inr (by rw [wrap_length, Nat.add_comm])) ?_
  intro b pre hb hbytes hfits
  rw [wrap_length] at hfits
  obtain ⟨b₁, h₁, hbytes₁, hok₁⟩ := Emits.write [0] b hb (by rw [hbytes]; simp; omega)
  have hbytes' : b₁.bytes = pre ++ ([0, 0, 0, 0] ++ (X ++ [0])) := by rw [hbytes₁, hbytes]; simp
  have hlen : b₁.bytes.length - pre.length = X.length + 5 := by rw [hbytes']; simp
  have hnat : (BitVec.ofNat 32 (X.length + 5)).toNat = X.length + 5 := by
    rw [BitVec.toNat_ofNat, Nat.mod_eq_of_lt (by omega)]
  have hpatched := writeLength_bytes hbytes' (BitVec.ofNat 32 (X.length + 5))
  rw [hnat] at hpatched
  refine ⟨_, ?_, by rw [hpatched, wrap, List.append_assoc], writeLength_ok hbytes' _ hok₁⟩
  change Bson.write b [0] = .ok b₁ at h₁
  simp only [finish, writeByte, h₁, Bind.bind, Except.bind, hlen]

end Bson
end Skynet
