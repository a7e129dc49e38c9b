import Skynet.Seri.Pack

/-!
# Skynet.Seri.Block

The write buffer: whatever the sizes of the pushes, the blocks hold the bytes pushed.

* `foldl_wbPush` : after any pushes the contents are their bytes, and `len` is their number as an
  `int`.
* `seri_contents` : `seri` joins the blocks.
* `pushed_contents` : the two for any sequence of pushes, `pushed_beyond_int` what becomes of `2 ^ 31` bytes.
-/

namespace Skynet
namespace Seri

/-- The bytes in the blocks. -/
def WriteBlock.contents (b : WriteBlock) : Bytes := b.full.flatten ++ b.current

/-- All blocks but the current one are full. -/
structure BlockOk (b : WriteBlock) : Prop where
  full : ∀ x ∈ b.full, x.length = BLOCK_SIZE
  current : b.current.length ≤ BLOCK_SIZE

theorem nextBlock_contents (b : WriteBlock) : (nextBlock b).contents = b.contents := by
  simp [nextBlock, WriteBlock.contents]

theorem nextBlock_ok {b : WriteBlock} (h : BlockOk b) (hfull : b.current.length = BLOCK_SIZE) :
    BlockOk (nextBlock b) where
  full := by
    intro x hx
    rcases List.mem_append.mp hx with hx | hx
    · exact h.full x hx
    · rw [List.mem_singleton.mp hx]; exact hfull
  current := Nat.zero_le _

theorem toInt32_of_lt {n : Nat} (h : n < 2 ^ 31) : toInt32 n = n := by
  apply Int.bmod_eq_of_le
  · omega
  · omega

theorem toInt32_add (a b : Int) : toInt32 (toInt32 a + b) = toInt32 (a + b) := Int.bmod_add_bmod

/-- The loop of `wb_push`, from a block with room. -/
theorem pushLoop_spec (fuel : Nat) {b : WriteBlock} (buf : Bytes) (h : BlockOk b)
    (hroom : b.current.length < BLOCK_SIZE) (hfuel : buf.length < fuel) :
    BlockOk (pushLoop fuel b buf) ∧ (pushLoop fuel b buf).contents = b.contents ++ buf ∧
    (pushLoop fuel b buf).len = toInt32 (b.len + buf.length) := by
  induction fuel generalizing b buf with
  | zero => omega
  | succ fuel ih =>
    simp only [pushLoop]
    split
    · rename_i hfit
      refine ⟨⟨h.full, ?_⟩, ?_, rfl⟩
      · rw [List.length_append]; omega
      · simp [WriteBlock.contents]
    · rename_i hlong
      have hcopy : BLOCK_SIZE - b.current.length < buf.length := by omega
      have hcur : (b.current ++ buf.take (BLOCK_SIZE - b.current.length)).length = BLOCK_SIZE := by
        rw [List.length_append, List.length_take]; omega
      have hok := nextBlock_ok (b := { b with
        current := b.current ++ buf.take (BLOCK_SIZE - b.current.length)
        len := toInt32 (b.len + (BLOCK_SIZE - b.current.length : Nat)) }) ⟨h.full, Nat.le_of_eq hcur⟩ hcur
      obtain ⟨h1, h2, h3⟩ := ih (buf.drop (BLOCK_SIZE - b.current.length)) hok
        (show 0 < BLOCK_SIZE by decide) (by rw [List.length_drop]; omega)
      refine ⟨h1, ?_, ?_⟩
      · rw [h2, nextBlock_contents]
        simp only [WriteBlock.contents, List.append_assoc, List.take_append_drop]
      · rw [h3]
        simp only [nextBlock, toInt32_add, List.length_drop]
        congr 1
        omega

/-- One call of `wb_push`, of any size. -/
theorem wbPush_spec {b : WriteBlock} (h : BlockOk b) (buf : Bytes) :
    BlockOk (wbPush b buf) ∧ (wbPush b buf).contents = b.contents ++ buf ∧
    (wbPush b buf).len = toInt32 (b.len + buf.length) := by
  unfold wbPush
  split
  · rename_i hfull
    obtain ⟨h1, h2, h3⟩ := pushLoop_spec (buf.length + 1) buf (nextBlock_ok h hfull)
      (show 0 < BLOCK_SIZE by decide) (Nat.lt_succ_self _)
    exact ⟨h1, by rw [h2, nextBlock_contents], h3⟩
  · rename_i hne
    exact pushLoop_spec _ _ h (by have := h.current; omega) (Nat.lt_succ_self _)

/-- Any sequence of pushes. -/
theorem foldl_wbPush {b : WriteBlock} (h : BlockOk b) (hlen : b.len = toInt32 b.contents.length)
    (pushes : List Bytes) :
    BlockOk (pushes.foldl wbPush b) ∧ (pushes.foldl wbPush b).contents = b.contents ++ pushes.flatten ∧
    (pushes.foldl wbPush b).len = toInt32 (pushes.foldl wbPush b).contents.length := by
  induction pushes generalizing b with
  | nil => exact ⟨h, by simp, hlen⟩
  | cons buf pushes ih =>
    obtain ⟨h1, h2, h3⟩ := wbPush_spec h buf
    have hlen' : (wbPush b buf).len = toInt32 (wbPush b buf).contents.length := by
      rw [h3, h2, hlen, toInt32_add, List.length_append]; push_cast; rfl
    obtain ⟨k1, k2, k3⟩ := ih h1 hlen'
    exact ⟨k1, by rw [List.foldl_cons, k2, h2]; simp, k3⟩

theorem wbInit_ok : BlockOk wbInit := ⟨by simp [wbInit], by decide⟩

theorem wbInit_len : wbInit.len = toInt32 wbInit.contents.length :=
  (toInt32_of_lt (n := 0) (by decide)).symm

/-- Joining the blocks. -/
theorem seriLoop_spec {full : List Bytes} {current : Bytes} (hfull : ∀ x ∈ full, x.length = BLOCK_SIZE)
    (hcur : current.length ≤ BLOCK_SIZE) :
    seriLoop (full ++ [current]) (full.flatten ++ current).length = full.flatten ++ current := by
  induction full with
  | nil =>
    simp only [List.nil_append, List.flatten_nil, seriLoop]
    split
    · rename_i h0
      exact (List.eq_nil_of_length_eq_zero (by omega)).symm
    · split
      · rw [List.take_of_length_le hcur, List.append_nil]
      · rw [Int.toNat_natCast, List.take_length]
  | cons x full ih =>
    have hx : x.length = BLOCK_SIZE := hfull x (List.mem_cons_self ..)
    have hpos : 0 < BLOCK_SIZE := by decide
    have hlen : (((x :: full).flatten ++ current).length : Int) - BLOCK_SIZE = (full.flatten ++ current).length := by
      simp only [List.flatten_cons, List.append_assoc, List.length_append, hx]; push_cast; omega
    have hge : (BLOCK_SIZE : Int) ≤ ((x :: full).flatten ++ current).length := by omega
    rw [List.cons_append, seriLoop, if_neg (by omega), if_pos hge, hlen,
      ih fun y hy => hfull y (List.mem_cons_of_mem _ hy), List.take_of_length_le (Nat.le_of_eq hx)]
    simp

/-- `seri` after pushes of fewer than `2 ^ 31` bytes. -/
theorem seri_contents {pushes : List Bytes} (h : pushes.flatten.length < 2 ^ 31) :
    seri (pushes.foldl wbPush wbInit) = some (pushes.flatten, (pushes.flatten.length : Int)) := by
  obtain ⟨hok, hcont, hlen⟩ := foldl_wbPush wbInit_ok wbInit_len pushes
  rw [show wbInit.contents = [] from rfl, List.nil_append] at hcont
  have hsz : (pushes.foldl wbPush wbInit).len = (pushes.flatten.length : Int) := by
    rw [hlen, hcont, toInt32_of_lt h]
  have hjoin := seriLoop_spec hok.full hok.current
  change seriLoop _ ((pushes.foldl wbPush wbInit).contents.length : Int) = (pushes.foldl wbPush wbInit).contents at hjoin
  rw [hcont] at hjoin
  rw [seri, if_neg (by rw [hsz]; omega), hsz, hjoin]

/-- Pushes of any sizes: the blocks are never used beyond their size and hold the bytes pushed. As long as the bytes
have a number that is an `int`, `len` is this number, and `seri` gives them. -/
theorem pushed_contents (pushes : List Bytes) :
    BlockOk (pushes.foldl wbPush wbInit) ∧ (pushes.foldl wbPush wbInit).contents = pushes.flatten ∧
    (pushes.flatten.length < 2 ^ 31 →
      (pushes.foldl wbPush wbInit).len = pushes.flatten.length ∧
      seri (pushes.foldl wbPush wbInit) = some (pushes.flatten, (pushes.flatten.length : Int))) := by
  obtain ⟨hok, hcont, hlen⟩ := foldl_wbPush wbInit_ok wbInit_len pushes
  have hflat : (pushes.foldl wbPush wbInit).contents = pushes.flatten := hcont
  refine ⟨hok, hflat, fun h => ⟨?_, seri_contents h⟩⟩
  rw [hlen, hflat, toInt32_of_lt h]

/-- A push that leaves room, an empty one, one that fills the block, and one over three blocks. -/
def borderPushes : List Bytes := [List.replicate 100 1, [], List.replicate 28 2, List.replicate 300 3]

theorem pushed_contents_border :
    (borderPushes.foldl wbPush wbInit).len = 428 ∧
    seri (borderPushes.foldl wbPush wbInit) =
      some (List.replicate 100 1 ++ (List.replicate 28 2 ++ List.replicate 300 3), 428) := by
  have hlen : borderPushes.flatten.length = 428 := by
    simp only [borderPushes, List.flatten_cons, List.flatten_nil, List.length_append, List.length_replicate, List.length_nil]
  obtain ⟨h, hseri⟩ := (pushed_contents borderPushes).2.2 (by omega)
  rw [hseri, h, hlen]
  simp only [borderPushes, List.flatten_cons, List.flatten_nil, List.append_nil, List.nil_append]
  exact ⟨rfl, rfl⟩

/-- Two pushes of `2 ^ 30` bytes: `len` is negative, and there is no buffer of this size. -/
theorem pushed_beyond_int : ¬ ∀ pushes : List Bytes, (∀ buf ∈ pushes, buf.length < 2 ^ 31) →
    (pushes.foldl wbPush wbInit).len = pushes.flatten.length ∧
    seri (pushes.foldl wbPush wbInit) = some (pushes.flatten, (pushes.flatten.length : Int)) := by
  intro h
  have hsmall : ∀ buf ∈ List.replicate 2 (List.replicate (2 ^ 30) (0 : UInt8)), buf.length < 2 ^ 31 := by
    intro buf hbuf
    rw [List.eq_of_mem_replicate hbuf, List.length_replicate]
    decide
  obtain ⟨hlen, -⟩ := h _ hsmall
  obtain ⟨-, hcont, hwrap⟩ := foldl_wbPush wbInit_ok wbInit_len (List.replicate 2 (List.replicate (2 ^ 30) 0))
  have htotal : (List.replicate 2 (List.replicate (2 ^ 30) (0 : UInt8))).flatten.length = 2 ^ 31 :=
    (congrArg List.length List.flatten_replicate_replicate).trans (List.length_replicate.trans (by decide))
  rw [show wbInit.contents = [] from rfl, List.nil_append] at hcont
  rw [hwrap, hcont, htotal] at hlen
  revert hlen
  decide

end Seri
end Skynet
