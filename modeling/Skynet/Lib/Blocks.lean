import Mathlib.Data.List.Basic
import Mathlib.Data.List.Nodup
import Mathlib.Data.List.Infix

/-!
# Skynet.Lib.Blocks

Streams made of whole blocks, each item carrying the tag of its block.

* `count_flatMap_of_mem` : the items with the tag of a block are those of the block.
* `prefix_completes` : when a stream is cut inside a block, that block is complete before any
  block that had not begun then has an item on the stream.
-/

namespace Blocks

variable {ι α β : Type*} [DecidableEq ι]

/-- The number of items of the stream with tag `i`. -/
def count (w : List (ι × α)) (i : ι) : Nat := w.countP fun x => x.1 = i

theorem count_append (v w : List (ι × α)) (i : ι) : count (v ++ w) i = count v i + count w i :=
  List.countP_append

theorem count_eq_length {w : List (ι × α)} {i : ι} (h : ∀ x ∈ w, x.1 = i) : count w i = w.length :=
  List.countP_eq_length.mpr fun x hx => decide_eq_true (h x hx)

theorem count_eq_zero {w : List (ι × α)} {i : ι} (h : ∀ x ∈ w, x.1 ≠ i) : count w i = 0 :=
  List.countP_eq_zero.mpr fun x hx => by simpa using h x hx

theorem count_prefix_le {v w : List (ι × α)} (h : v <+: w) (i : ι) : count v i ≤ count w i :=
  h.sublist.countP_le

section

variable {tag : β → ι} {items : β → List (ι × α)} (htag : ∀ b, ∀ x ∈ items b, x.1 = tag b)

include htag

theorem count_items (b : β) : count (items b) (tag b) = (items b).length := count_eq_length (htag b)

theorem count_flatMap_of_notMem {bs : List β} {i : ι} (h : i ∉ bs.map tag) :
    count (bs.flatMap items) i = 0 := by
  apply count_eq_zero
  intro x hx
  obtain ⟨b, hb, hxb⟩ := List.mem_flatMap.mp hx
  rw [htag b x hxb]
  rintro rfl
  exact h (List.mem_map_of_mem hb)

/-- Among blocks with distinct tags, the items with the tag of a block are its own. -/
theorem count_flatMap_of_mem {bs : List β} (hnd : (bs.map tag).Nodup) {b : β} (hb : b ∈ bs) :
    count (bs.flatMap items) (tag b) = (items b).length := by
  obtain ⟨A, B, rfl⟩ := List.append_of_mem hb
  rw [List.map_append, List.map_cons, List.nodup_append] at hnd
  rw [List.flatMap_append, List.flatMap_cons, count_append, count_append, count_items htag,
    count_flatMap_of_notMem htag (fun hm => hnd.2.2 _ hm _ (List.mem_cons_self ..) rfl),
    count_flatMap_of_notMem htag (List.nodup_cons.mp hnd.2.1).1]
  omega

/-- Of two streams of the same blocks, one that has an item of a block not in `A` holds all of `A`. -/
theorem prefix_of_count_pos {w : List (ι × α)} {A B : List β} {i : ι}
    (hw : w <+: (A ++ B).flatMap items) (hA : i ∉ A.map tag) (hpos : 0 < count w i) :
    A.flatMap items <+: w := by
  have hApre : A.flatMap items <+: (A ++ B).flatMap items := by
    rw [List.flatMap_append]; exact List.prefix_append ..
  rcases List.prefix_or_prefix_of_prefix hApre hw with h | h
  · exact h
  · have h0 := count_prefix_le h i
    rw [count_flatMap_of_notMem htag hA] at h0
    omega

/-- Once a stream was cut inside the block `p`, a block that had not begun then begins only after
all of `p`. -/
theorem prefix_completes {w w' : List (ι × α)} {bs : List β} (hnd : (bs.map tag).Nodup)
    (hww : w <+: w') (hw : w' <+: bs.flatMap items) {p q : β} (hp : p ∈ bs) (hq : q ∈ bs)
    (hpos : 0 < count w (tag p)) (hq0 : count w (tag q) = 0) (hq' : 0 < count w' (tag q)) :
    count w' (tag p) = (items p).length := by
  have hlep : count w' (tag p) ≤ (items p).length := by
    rw [← count_flatMap_of_mem htag hnd hp]; exact count_prefix_le hw _
  have hleq : count w' (tag q) ≤ (items q).length := by
    rw [← count_flatMap_of_mem htag hnd hq]; exact count_prefix_le hw _
  obtain ⟨A, B, rfl⟩ := List.append_of_mem hp
  have hsplit := hnd
  rw [List.map_append, List.map_cons, List.nodup_append] at hsplit
  obtain ⟨hndA, -, hdisj⟩ := hsplit
  have hA := prefix_of_count_pos htag (hww.trans hw)
    (fun hm => hdisj _ hm _ (List.mem_cons_self ..) rfl) hpos
  -- `q` comes after `p`: before it, it would be complete at the first cut
  have hqB : q ∈ B := by
    rcases List.mem_append.mp hq with hqA | hqp
    · have h1 := count_prefix_le hA (tag q)
      rw [count_flatMap_of_mem htag hndA hqA] at h1
      omega
    · rcases List.mem_cons.mp hqp with rfl | hqB
      · omega
      · exact hqB
  have hassoc : A ++ p :: B = (A ++ [p]) ++ B := by simp
  rw [hassoc] at hw hnd
  rw [List.map_append, List.nodup_append] at hnd
  have hfull := prefix_of_count_pos htag hw
    (fun hm => hnd.2.2 _ hm _ (List.mem_map_of_mem hqB) rfl) hq'
  have h0 := count_prefix_le hfull (tag p)
  rw [List.flatMap_append, count_append, List.flatMap_singleton, count_items htag] at h0
  omega

end

end Blocks
