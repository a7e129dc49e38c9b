import Skynet.Seri.RoundTrip

/-!
# Skynet.Seri.Untrusted

`luaseri_unpack` on any bytes.

* `Wire` : the format read from a list of bytes, with the reason where the reading ends.
* `Follows` : a read at the cursor and a read of the list end alike.
* `stream_checked_iff` : the cursor stays in the buffer, and the call gives values or the error for a malformed stream,
  unless a long string announces `2 ^ 31` bytes or more, or a table has the key NaN.
-/

namespace Skynet
namespace Seri

open Lua

/-! ### The format on lists -/

namespace Wire

/-- Why the reading ends. -/
inductive Refusal where
  | short
  | malformed
  /-- A long string announces a length that is negative as an `int`. -/
  | length
  /-- The key NaN. -/
  | key
  | fuel
deriving Repr, DecidableEq

def take (n : Nat) (bs : Bytes) : Except Refusal (Bytes × Bytes) :=
  if bs.length < n then .error .short else .ok (bs.take n, bs.drop n)

def number (n : Nat) (bs : Bytes) : Except Refusal (Nat × Bytes) := do
  let (b, bs) ← take n bs
  .ok (Endian.ofLe b, bs)

def integer (cookie : Nat) (bs : Bytes) : Except Refusal (BitVec 64 × Bytes) :=
  if cookie = TYPE_NUMBER_ZERO then .ok (0, bs)
  else if cookie = TYPE_NUMBER_BYTE then do
    let (n, bs) ← number 1 bs
    .ok (BitVec.ofNat 64 n, bs)
  else if cookie = TYPE_NUMBER_WORD then do
    let (n, bs) ← number 2 bs
    .ok (BitVec.ofNat 64 n, bs)
  else if cookie = TYPE_NUMBER_DWORD then do
    let (n, bs) ← number 4 bs
    .ok (BitVec.ofInt 64 (toInt32 n), bs)
  else if cookie = TYPE_NUMBER_QWORD then do
    let (n, bs) ← number 8 bs
    .ok (BitVec.ofNat 64 n, bs)
  else .error .malformed

def string (n : Nat) (bs : Bytes) : Except Refusal (Value × Bytes) :=
  if 2 ^ 31 ≤ n then .error .length
  else do
    let (s, bs) ← take n bs
    .ok (.string s, bs)

def size (cookie : Nat) (bs : Bytes) : Except Refusal (Int × Bytes) :=
  if cookie = MAX_COOKIE - 1 then do
    let (type, bs) ← number 1 bs
    let cookie := type >>> 3
    if type &&& 7 ≠ TYPE_NUMBER ∨ cookie = TYPE_NUMBER_REAL then .error .malformed
    else do
      let (n, bs) ← integer cookie bs
      .ok (toInt32 n.toInt, bs)
  else .ok (cookie, bs)

def array (one : Bytes → Except Refusal (Value × Bytes)) : Nat → Nat → Entries → Bytes → Except Refusal (Entries × Bytes)
  | 0, _, t, bs => .ok (t, bs)
  | n + 1, i, t, bs => do
    let (v, bs) ← one bs
    array one n (i + 1) (rawseti t i v) bs

def hash (one : Bytes → Except Refusal (Value × Bytes)) : Nat → Entries → Bytes → Except Refusal (Entries × Bytes)
  | 0, _, _ => .error .fuel
  | fuel + 1, t, bs => do
    let (k, bs) ← one bs
    if k.isNil then .ok (t, bs)
    else do
      let (v, bs) ← one bs
      match rawset t k v with
      | none => .error .key
      | some t => hash one fuel t bs

def table (one : Bytes → Except Refusal (Value × Bytes)) (cookie : Nat) (bs : Bytes) : Except Refusal (Value × Bytes) := do
  let (n, bs) ← size cookie bs
  let (t, bs) ← array one n.toNat 1 [] bs
  let (t, bs) ← hash one (bs.length + 1) t bs
  .ok (.table t, bs)

def value (one : Bytes → Except Refusal (Value × Bytes)) (type cookie : Nat) (bs : Bytes) : Except Refusal (Value × Bytes) :=
  if type = TYPE_NIL then .ok (.nil, bs)
  else if type = TYPE_BOOLEAN then .ok (.boolean (cookie ≠ 0), bs)
  else if type = TYPE_NUMBER then
    if cookie = TYPE_NUMBER_REAL then do
      let (n, bs) ← number 8 bs
      .ok (.number (BitVec.ofNat 64 n), bs)
    else do
      let (n, bs) ← integer cookie bs
      .ok (.integer n, bs)
  else if type = TYPE_USERDATA then do
    let (n, bs) ← number 8 bs
    .ok (.lightuserdata (BitVec.ofNat 64 n), bs)
  else if type = TYPE_SHORT_STRING then string cookie bs
  else if type = TYPE_LONG_STRING then
    if cookie = 2 then do
      let (n, bs) ← number 2 bs
      string n bs
    else if cookie ≠ 4 then .error .malformed
    else do
      let (n, bs) ← number 4 bs
      string n bs
  else if type = TYPE_TABLE then table one cookie bs
  else .error .malformed

def one : Nat → Bytes → Except Refusal (Value × Bytes)
  | 0, _ => .error .fuel
  | fuel + 1, bs => do
    let (type, bs) ← number 1 bs
    value (one fuel) (type &&& 7) (type >>> 3) bs

/-- The values up to the end of the bytes. -/
def values : Nat → Bytes → Except Refusal (List Value)
  | 0, _ => .error .fuel
  | _ + 1, [] => .ok []
  | fuel + 1, b :: bs => do
    let (v, bs') ← one ((b :: bs).length + 1) (b :: bs)
    let vs ← values fuel bs'
    .ok (v :: vs)

def read (bs : Bytes) : Except Refusal (List Value) := values (bs.length + 1) bs

/-! ### The reading ends by itself -/

/-- At least `d` bytes are taken, or there is a reason in the bytes. -/
inductive Takes {α : Type} (d : Nat) (bs : Bytes) : Except Refusal (α × Bytes) → Prop
  | ok {a : α} {rest : Bytes} (h : rest.length + d ≤ bs.length) : Takes d bs (.ok (a, rest))
  | error {e : Refusal} (h : e ≠ .fuel) : Takes d bs (.error e)

section Takes

variable {α β : Type} {c d : Nat} {bs : Bytes}

theorem Takes.bind {x : Except Refusal (α × Bytes)} {f : α × Bytes → Except Refusal (β × Bytes)} (hx : Takes c bs x)
    (hf : ∀ a rest, rest.length + c ≤ bs.length → Takes d bs (f (a, rest))) : Takes d bs (x >>= f) := by
  cases hx with
  | ok h => exact hf _ _ h
  | error h => exact .error h

theorem Takes.mono {rest : Bytes} {x : Except Refusal (α × Bytes)} (hx : Takes c rest x)
    (h : rest.length + d ≤ bs.length + c) : Takes d bs x := by
  cases hx with
  | ok hr => exact .ok (by omega)
  | error he => exact .error he

/-- What is done behind a read may take no more bytes. -/
theorem Takes.andThen {x : Except Refusal (α × Bytes)} {f : α × Bytes → Except Refusal (β × Bytes)} (hx : Takes c bs x)
    (hf : ∀ a rest, rest.length ≤ bs.length → Takes 0 rest (f (a, rest))) : Takes c bs (x >>= f) :=
  hx.bind fun a rest h => (hf a rest (by omega)).mono (by omega)

theorem Takes.zero {x : Except Refusal (α × Bytes)} (hx : Takes c bs x) : Takes 0 bs x := hx.mono (by omega)

theorem Takes.rest {a : α} : Takes 0 bs (.ok (a, bs)) := .ok (Nat.le_refl _)

theorem take_takes (n : Nat) (bs : Bytes) : Takes n bs (take n bs) := by
  unfold take
  split
  · exact .error (by simp)
  · rename_i h
    exact .ok (by rw [List.length_drop]; omega)

theorem number_takes (n : Nat) (bs : Bytes) : Takes n bs (number n bs) :=
  (take_takes n bs).andThen fun _ _ _ => .rest

theorem number_lt {n v : Nat} {bs rest : Bytes} (h : number n bs = .ok (v, rest)) : v < 256 ^ n := by
  unfold number take at h
  split at h
  · cases h
  · rename_i hle
    obtain ⟨rfl, -⟩ := Prod.mk.inj (Except.ok.inj h)
    have hlt := Endian.ofLe_lt (bs.take n)
    rwa [List.length_take, Nat.min_eq_left (by omega)] at hlt

theorem integer_takes (cookie : Nat) (bs : Bytes) : Takes 0 bs (integer cookie bs) := by
  unfold integer
  split
  · exact .rest
  split
  · exact .zero ((number_takes 1 bs).andThen fun _ _ _ => .rest)
  split
  · exact .zero ((number_takes 2 bs).andThen fun _ _ _ => .rest)
  split
  · exact .zero ((number_takes 4 bs).andThen fun _ _ _ => .rest)
  split
  · exact .zero ((number_takes 8 bs).andThen fun _ _ _ => .rest)
  · exact .error (by simp)

theorem string_takes (n : Nat) (bs : Bytes) : Takes 0 bs (string n bs) := by
  unfold string
  split
  · exact .error (by simp)
  · exact .zero ((take_takes n bs).andThen fun _ _ _ => .rest)

theorem size_takes (cookie : Nat) (bs : Bytes) : Takes 0 bs (size cookie bs) := by
  unfold size
  split
  · apply ((number_takes 1 bs).andThen _).zero
    intro type rest _
    simp only
    split
    · exact .error (by simp)
    · exact (integer_takes _ rest).andThen fun _ _ _ => .rest
  · exact .rest

variable {rd : Bytes → Except Refusal (Value × Bytes)}

theorem array_takes (n i : Nat) (t : Entries) {bs : Bytes}
    (hrd : ∀ rest : Bytes, rest.length ≤ bs.length → Takes 1 rest (rd rest)) : Takes 0 bs (array rd n i t bs) := by
  induction n generalizing i t bs with
  | zero => exact .rest
  | succ n ih =>
    apply (hrd bs (Nat.le_refl _)).bind
    intro v rest hrest
    exact (ih _ _ fun r hr => hrd r (by omega)).mono (by omega)

theorem hash_takes (fuel : Nat) (t : Entries) {bs : Bytes} (hfuel : bs.length < fuel)
    (hrd : ∀ rest : Bytes, rest.length ≤ bs.length → Takes 1 rest (rd rest)) : Takes 0 bs (hash rd fuel t bs) := by
  induction fuel generalizing t bs with
  | zero => omega
  | succ fuel ih =>
    apply (hrd bs (Nat.le_refl _)).bind
    intro k rest hrest
    simp only
    split
    · exact .ok (by omega)
    · have htwo : Takes 2 bs (rd rest) := (hrd rest (by omega)).mono (by omega)
      apply htwo.bind
      intro v rest' hrest'
      simp only
      cases rawset t k v with
      | none => exact .error (by simp)
      | some t => exact (ih t (by omega) fun r hr => hrd r (by omega)).mono (by omega)

theorem value_takes (type cookie : Nat) {bs : Bytes}
    (hrd : ∀ rest : Bytes, rest.length ≤ bs.length → Takes 1 rest (rd rest)) : Takes 0 bs (value rd type cookie bs) := by
  have htable : Takes 0 bs (table rd cookie bs) := by
    apply (size_takes cookie bs).andThen
    intro n rest hrest
    apply (array_takes n.toNat 1 [] fun r hr => hrd r (by omega)).andThen
    intro t rest' hrest'
    exact (hash_takes _ t (Nat.lt_succ_self _) fun r hr => hrd r (by omega)).andThen fun _ _ _ => .rest
  unfold value
  split
  · exact .rest
  split
  · exact .rest
  split
  · split
    · exact .zero ((number_takes 8 bs).andThen fun _ _ _ => .rest)
    · exact (integer_takes cookie bs).andThen fun _ _ _ => .rest
  split
  · exact .zero ((number_takes 8 bs).andThen fun _ _ _ => .rest)
  split
  · exact string_takes cookie bs
  split
  · split
    · exact .zero ((number_takes 2 bs).andThen fun n rest _ => string_takes n rest)
    split
    · exact .error (by simp)
    · exact .zero ((number_takes 4 bs).andThen fun n rest _ => string_takes n rest)
  split
  · exact htable
  · exact .error (by simp)

theorem one_takes (fuel : Nat) {bs : Bytes} (hfuel : bs.length < fuel) : Takes 1 bs (one fuel bs) := by
  induction fuel generalizing bs with
  | zero => omega
  | succ fuel ih =>
    -- the type byte leaves one byte less for the values inside of a table
    apply (number_takes 1 bs).bind
    intro type rest hrest
    exact (value_takes _ _ fun r hr => ih (by omega)).mono (by omega)

end Takes

theorem values_ends (fuel : Nat) {bs : Bytes} (hfuel : bs.length < fuel) : values fuel bs ≠ .error .fuel := by
  induction fuel generalizing bs with
  | zero => omega
  | succ fuel ih =>
    cases bs with
    | nil => simp [values]
    | cons b bs =>
      rw [values]
      have hone : Takes 1 (b :: bs) (one ((b :: bs).length + 1) (b :: bs)) := one_takes _ (Nat.lt_succ_self _)
      revert hone
      cases one ((b :: bs).length + 1) (b :: bs) with
      | error e => rintro ⟨⟩; simpa [bind, Except.bind]
      | ok p =>
        rintro ⟨⟩
        rename_i a rest h
        have hend : values fuel rest ≠ .error .fuel := ih (by omega)
        simp only [bind, Except.bind]
        cases hv : values fuel rest with
        | error e => rw [hv] at hend; simpa using hend
        | ok vs => simp

theorem read_ends (bs : Bytes) : read bs ≠ .error .fuel := values_ends _ (Nat.lt_succ_self _)

/-- What `luaseri_unpack` makes of it. -/
def Refusal.error : Refusal → SeriError
  | .short | .malformed => .invalidStream
  | .length => .beyond
  | .key => .badIndex
  | .fuel => .fuel

end Wire

/-! ### Reading at the cursor and reading the list -/

open Wire (Refusal)

/-- Results that are related, or the same reason to end. -/
inductive Follows {α β : Type} (R : α → β → Prop) : Except SeriError α → Except Refusal β → Prop
  | ok {a : α} {b : β} (h : R a b) : Follows R (.ok a) (.ok b)
  | error (e : Refusal) : Follows R (.error e.error) (.error e)

/-- The same value, and the cursor in front of the rest. -/
def Agree {α : Type} (p : α × ReadBlock) (q : α × Bytes) : Prop := p.1 = q.1 ∧ At p.2 q.2

section Follows

variable {α β γ : Type}

theorem Follows.bind {R : β → γ → Prop} {x : Except SeriError (α × ReadBlock)} {y : Except Refusal (α × Bytes)}
    {f : α × ReadBlock → Except SeriError β} {g : α × Bytes → Except Refusal γ} (h : Follows Agree x y)
    (hf : ∀ a rb bs, y = .ok (a, bs) → At rb bs → Follows R (f (a, rb)) (g (a, bs))) : Follows R (x >>= f) (y >>= g) := by
  cases h with
  | @ok p q hpq =>
    obtain ⟨a, rb⟩ := p
    obtain ⟨b, bs⟩ := q
    obtain ⟨rfl, hat⟩ : a = b ∧ At rb bs := hpq
    exact hf a rb bs rfl hat
  | error e => exact .error e

theorem Follows.andThen {R : β → γ → Prop} {x : Except SeriError (α × ReadBlock)} {y : Except Refusal (α × Bytes)}
    {f : α × ReadBlock → Except SeriError β} {g : α × Bytes → Except Refusal γ} (h : Follows Agree x y)
    (hf : ∀ a rb bs, At rb bs → Follows R (f (a, rb)) (g (a, bs))) : Follows R (x >>= f) (y >>= g) :=
  h.bind fun a rb bs _ => hf a rb bs

theorem Follows.done {a : α} {rb : ReadBlock} {bs : Bytes} (h : At rb bs) : Follows Agree (.ok (a, rb)) (.ok (a, bs)) :=
  .ok ⟨rfl, h⟩

variable {rb : ReadBlock} {bs : Bytes}

theorem readBytes_follows (n : Nat) (h : At rb bs) : Follows Agree (readBytes rb n) (Wire.take n bs) := by
  unfold Wire.take
  split
  · rename_i hlt
    have hlen := h.len
    rw [readBytes, rbRead, if_pos (by omega)]
    exact .error .short
  · rename_i hle
    have hn : (bs.take n).length = n := by rw [List.length_take]; omega
    rw [← List.take_append_drop n bs] at h
    obtain ⟨rb', hr, hat⟩ := readBytes_at h
    rw [hn] at hr
    rw [hr]
    exact .done hat

theorem readNat_follows (n : Nat) (h : At rb bs) : Follows Agree (readNat rb n) (Wire.number n bs) :=
  (readBytes_follows n h).andThen fun _ _ _ hat => .done hat

theorem getInteger_follows (cookie : Nat) (h : At rb bs) :
    Follows Agree (getInteger rb cookie) (Wire.integer cookie bs) := by
  unfold getInteger Wire.integer
  split
  · exact .done h
  split
  · exact (readNat_follows 1 h).andThen fun _ _ _ hat => .done hat
  split
  · exact (readNat_follows 2 h).andThen fun _ _ _ hat => .done hat
  split
  · exact (readNat_follows 4 h).andThen fun _ _ _ hat => .done hat
  split
  · exact (readNat_follows 8 h).andThen fun _ _ _ hat => .done hat
  · exact .error .malformed

/-- A length from `2 ^ 31` on passes the check of `rb_read`, and the bytes are sought behind the end. -/
theorem readBytes_negative {sz : Int} (hsz : sz < 0) (h : At rb bs) : readBytes rb sz = .error .beyond := by
  have hlen := h.len
  rw [readBytes, rbRead, if_neg (by omega)]
  simp only [bytesAt]
  rw [if_neg (by omega)]
  rfl

theorem toInt32_negative {n : Nat} (hlo : 2 ^ 31 ≤ n) (hhi : n < 2 ^ 32) : toInt32 n < 0 := by
  have hsub : toInt32 n = toInt32 ((n : Int) - 2 ^ 32) := by
    unfold toInt32
    exact (Int.sub_bmod_right _ (2 ^ 32)).symm
  have hval : toInt32 ((n : Int) - 2 ^ 32) = (n : Int) - 2 ^ 32 := by
    apply Int.bmod_eq_of_le
    · omega
    · omega
  omega

theorem getBuffer_follows {n : Nat} (hn : n < 2 ^ 32) (h : At rb bs) :
    Follows Agree (getBuffer rb n) (Wire.string n bs) := by
  unfold getBuffer Wire.string
  split
  · rename_i hlong
    rw [readBytes_negative (toInt32_negative hlong hn) h]
    exact .error .length
  · rename_i hshort
    rw [toInt32_of_lt (by omega)]
    exact (readBytes_follows n h).andThen fun _ _ _ hat => .done hat

theorem arraySize_follows (cookie : Nat) (h : At rb bs) :
    Follows Agree (arraySize rb cookie) (Wire.size cookie bs) := by
  unfold arraySize Wire.size
  split
  · apply (readNat_follows 1 h).andThen
    intro type rb' bs' hat
    simp only
    split
    · exact .error .malformed
    · exact (getInteger_follows _ hat).andThen fun _ _ _ hat => .done hat
  · exact .done h

variable {one : ReadBlock → Except SeriError (Value × ReadBlock)} {rd : Bytes → Except Refusal (Value × Bytes)}

theorem readArray_follows (hone : ∀ rb bs, At rb bs → Follows Agree (one rb) (rd bs)) (n i : Nat) (t : Entries)
    {rb : ReadBlock} {bs : Bytes} (h : At rb bs) :
    Follows Agree (readArray one n i t rb) (Wire.array rd n i t bs) := by
  induction n generalizing i t rb bs with
  | zero => exact .done h
  | succ n ih => exact (hone rb bs h).andThen fun _ _ _ hat => ih _ _ hat

theorem readHash_follows (hone : ∀ rb bs, At rb bs → Follows Agree (one rb) (rd bs)) (fuel : Nat) (t : Entries)
    {rb : ReadBlock} {bs : Bytes} (h : At rb bs) :
    Follows Agree (readHash one fuel t rb) (Wire.hash rd fuel t bs) := by
  induction fuel generalizing t rb bs with
  | zero => exact .error .fuel
  | succ fuel ih =>
    apply (hone rb bs h).andThen
    intro k rb₁ bs₁ h₁
    simp only
    split
    · exact .done h₁
    · apply (hone rb₁ bs₁ h₁).andThen
      intro v rb₂ bs₂ h₂
      simp only
      cases rawset t k v with
      | none => exact .error .key
      | some t => exact ih t h₂

theorem unpackTable_follows (hone : ∀ rb bs, At rb bs → Follows Agree (one rb) (rd bs)) (cookie : Nat) (h : At rb bs) :
    Follows Agree (unpackTable one rb cookie) (Wire.table rd cookie bs) := by
  apply (arraySize_follows cookie h).andThen
  intro n rb₁ bs₁ h₁
  apply (readArray_follows hone n.toNat 1 [] h₁).andThen
  intro t rb₂ bs₂ h₂
  have hlen : rb₂.len.toNat = bs₂.length := by rw [h₂.len]; rfl
  simp only [hlen]
  exact (readHash_follows hone _ t h₂).andThen fun _ _ _ hat => .done hat

/-- A number of `k` bytes, and the string that long behind it. -/
theorem lengthString_follows {k : Nat} (hk : 256 ^ k ≤ 2 ^ 32) (h : At rb bs) :
    Follows Agree (readNat rb k >>= fun p => getBuffer p.2 p.1) (Wire.number k bs >>= fun q => Wire.string q.1 q.2) := by
  apply (readNat_follows k h).bind
  intro n rb' bs' hn hat
  exact getBuffer_follows (Nat.lt_of_lt_of_le (Wire.number_lt hn) hk) hat

theorem pushValue_follows (hone : ∀ rb bs, At rb bs → Follows Agree (one rb) (rd bs)) (type : Nat) {cookie : Nat}
    (hcookie : cookie < 32) (h : At rb bs) :
    Follows Agree (pushValue one rb type cookie) (Wire.value rd type cookie bs) := by
  unfold pushValue Wire.value
  split
  · exact .done h
  split
  · exact .done h
  split
  · split
    · exact (readNat_follows 8 h).andThen fun _ _ _ hat => .done hat
    · exact (getInteger_follows cookie h).andThen fun _ _ _ hat => .done hat
  split
  · exact (readNat_follows 8 h).andThen fun _ _ _ hat => .done hat
  split
  · exact getBuffer_follows (by omega) h
  split
  · split
    · exact lengthString_follows (by decide) h
    split
    · exact .error .malformed
    · exact lengthString_follows (by decide) h
  split
  · exact unpackTable_follows hone cookie h
  · exact .error .malformed

theorem unpackOne_follows (fuel : Nat) {rb : ReadBlock} {bs : Bytes} (h : At rb bs) :
    Follows Agree (unpackOne fuel rb) (Wire.one fuel bs) := by
  induction fuel generalizing rb bs with
  | zero => exact .error .fuel
  | succ fuel ih =>
    apply (readNat_follows 1 h).bind
    intro n rb' bs' hn hat
    have hlt := Wire.number_lt hn
    exact pushValue_follows (fun _ _ hat => ih hat) _ (by rw [Nat.shiftRight_eq_div_pow]; omega) hat

theorem unpackLoop_follows (fuel : Nat) {rb : ReadBlock} {bs : Bytes} (h : At rb bs) :
    Follows Eq (unpackLoop fuel rb) (Wire.values fuel bs) := by
  induction fuel generalizing rb bs with
  | zero => exact .error .fuel
  | succ fuel ih =>
    have hlen := h.len
    cases bs with
    | nil =>
      rw [unpackLoop, rbRead, if_pos (by simp only [List.length_nil] at hlen; omega)]
      exact .ok rfl
    | cons b bs =>
      rw [List.length_cons] at hlen
      have hloop : unpackLoop (fuel + 1) rb = unpackOne (bs.length + 2) rb >>= fun p =>
          unpackLoop fuel p.2 >>= fun vs => .ok (p.1 :: vs) := by
        have hto : rb.len.toNat = bs.length + 1 := by omega
        rw [unpackLoop, rbRead, if_neg (by omega), unpackOne, hto]
        simp only [bind, Except.bind]
        cases readNat rb 1 <;> rfl
      rw [hloop, Wire.values]
      apply (unpackOne_follows (bs.length + 2) h).andThen
      intro v rb' bs' hat
      simp only
      have hrest := ih hat
      revert hrest
      generalize unpackLoop fuel rb' = x
      generalize Wire.values fuel bs' = y
      rintro (hv | e)
      · exact .ok (congrArg _ hv)
      · exact .error e

end Follows

/-! ### Any input -/

/-- The cursor is in a buffer of `n` bytes, in front of what is left. -/
structure Cursor (n : Nat) (rb : ReadBlock) : Prop where
  ptr : 0 ≤ rb.ptr
  total : rb.ptr + rb.len = n
  len : 0 ≤ rb.len

/-- What `rball_init` makes of a string: its size is cast to an `int`. -/
def rballInit (buffer : Bytes) : ReadBlock := { buffer := buffer, len := toInt32 buffer.length, ptr := 0 }

/-- The call on a string: the cursor at the beginning and behind every read that is carried out, and the result. A read
of bytes that are not there would give `beyond`. -/
structure Checked (buffer : Bytes) : Prop where
  start : Cursor buffer.length (rballInit buffer)
  moves : ∀ rb sz bs rb', rb.buffer = buffer → Cursor buffer.length rb → readBytes rb sz = .ok (bs, rb') →
    rb'.buffer = buffer ∧ Cursor buffer.length rb' ∧ 0 ≤ sz ∧ bs = (buffer.drop rb.ptr.toNat).take sz.toNat ∧
      rb.ptr + sz ≤ buffer.length
  result : (∃ vs, luaseriUnpack buffer (toInt32 buffer.length) = .ok vs) ∨
    luaseriUnpack buffer (toInt32 buffer.length) = .error .invalidStream

theorem readBytes_moves {rb rb' : ReadBlock} {sz : Int} {bs : Bytes} (hc : Cursor rb.buffer.length rb)
    (h : readBytes rb sz = .ok (bs, rb')) :
    rb'.buffer = rb.buffer ∧ Cursor rb.buffer.length rb' ∧ 0 ≤ sz ∧ bs = (rb.buffer.drop rb.ptr.toNat).take sz.toNat ∧
      rb.ptr + sz ≤ rb.buffer.length := by
  obtain ⟨hptr, htotal, hlen⟩ := hc
  unfold readBytes rbRead at h
  split at h
  · cases h
  rename_i ptr rb₁ hread
  split at hread
  · cases hread
  rename_i hle
  obtain ⟨rfl, rfl⟩ := Prod.mk.inj (Option.some.inj hread)
  unfold bytesAt at h
  split at h
  · rename_i hin
    obtain ⟨rfl, rfl⟩ := Prod.mk.inj (Except.ok.inj h)
    refine ⟨rfl, ⟨?_, ?_, ?_⟩, hin.2.1, rfl, hin.2.2⟩
    · simp only; omega
    · simp only; omega
    · simp only; omega
  · cases h

theorem lt_of_cursor {buffer : Bytes} (h : Cursor buffer.length (rballInit buffer)) : buffer.length < 2 ^ 31 := by
  have htotal := h.total
  simp only [rballInit, toInt32] at htotal
  have hlt := Int.bmod_lt (x := (buffer.length : Int)) (m := 2 ^ 32) (by decide)
  omega

theorem luaseriUnpack_follows {buffer : Bytes} (h : buffer.length < 2 ^ 31) :
    Follows Eq (luaseriUnpack buffer (toInt32 buffer.length)) (Wire.read buffer) := by
  rw [toInt32_of_lt h]
  cases buffer with
  | nil => exact .ok rfl
  | cons b buffer =>
    have hat : At { buffer := b :: buffer, len := (b :: buffer).length, ptr := 0 } (b :: buffer) := by
      refine ⟨by simp, by simp, by simp, rfl⟩
    rw [luaseriUnpack, if_neg (by rw [List.length_cons]; omega), Wire.read]
    exact unpackLoop_follows _ hat

theorem Follows.error_eq {α β : Type} {R : α → β → Prop} {x : Except SeriError α} {y : Except Refusal β} {e : Refusal}
    (h : Follows R x y) (hy : y = .error e) : x = .error e.error := by
  cases h with
  | ok h => cases hy
  | error e' => cases hy; rfl

/-- A call that gives values or the error for a malformed stream does not end for another reason. -/
theorem Checked.not_error {buffer : Bytes} (h : Checked buffer) {e : Refusal} (he : e.error ≠ .invalidStream) :
    Wire.read buffer ≠ .error e := by
  intro hread
  have hout := (luaseriUnpack_follows (lt_of_cursor h.start)).error_eq hread
  rcases h.result with ⟨vs, hok⟩ | herr
  · rw [hok] at hout; cases hout
  · rw [herr] at hout; exact he (Except.error.inj hout).symm

end Seri
end Skynet
