import Mathlib.NumberTheory.LucasPrimality
import Mathlib.Tactic.ReduceModChar
import Mathlib.Tactic.NormNum.Prime
import Skynet.Lib.Endian
import Skynet.Crypt.Hex

/-!
# Skynet.Crypt.DhExchange

The Diffie-Hellman exchange of `lua-crypt.c`, over the numbers modulo the greatest prime of 64 bits.

* `Mul` : the variables of `mul_mod_p`. `Mul.Exact` : what holds of them before each turn of its loop.
* `pow_mod_p` with the exponent 0 calls itself without end, `DhError.endless`.

* `P_prime` : the modulus is a prime.
* `Mul.run_spec`, `pow_mod_p_spec` : the loop and the recursion are a product and a power modulo `P`.
* `dh_agreement` : both sides have one secret, and no value leaves the numbers below `P` on the way.
-/

namespace Skynet
namespace Crypt

inductive DhError where
  /-- "Invalid uint64 x" -/
  | x
  /-- "Invalid uint64 y" -/
  | y
  /-- "Can't be 0" -/
  | zero
  /-- "Invalid dh uint64 key" -/
  | key
  | endless
deriving Repr, DecidableEq

def P : UInt64 := 0xffffffffffffffc5

structure Mul where
  m : UInt64
  a : UInt64
  b : UInt64
deriving Repr, DecidableEq

namespace Mul

/-- One turn of the loop of `mul_mod_p`. -/
def step (s : Mul) : Mul :=
  { m :=
      if s.b &&& 1 ≠ 0 then
        let t := P - s.a
        if t ≤ s.m then s.m - t else s.m + s.a
      else s.m
    a := if P - s.a ≤ s.a then s.a * 2 - P else s.a * 2
    b := s.b >>> 1 }

theorem toNat_step_b (s : Mul) : s.step.b.toNat = s.b.toNat / 2 := by
  simp [step, UInt64.toNat_shiftRight, Nat.shiftRight_eq_div_pow]

def run (s : Mul) : UInt64 := if s.b = 0 then s.m else s.step.run
termination_by s.b.toNat
decreasing_by
  have hb : s.b.toNat ≠ 0 := fun h => ‹¬s.b = 0› (UInt64.toNat.inj h)
  rw [toNat_step_b]
  omega

end Mul

def mul_mod_p (a b : UInt64) : UInt64 := Mul.run ⟨0, a, b⟩

def pow_mod_p (a b : UInt64) : Except DhError UInt64 :=
  if b = 1 then .ok a
  else if b = 0 then .error .endless
  else
    (pow_mod_p a (b >>> 1)).map fun t =>
      let t := mul_mod_p t t
      if b % 2 ≠ 0 then mul_mod_p t a else t
termination_by b.toNat
decreasing_by
  have hb : b.toNat ≠ 0 := fun h => ‹¬b = 0› (UInt64.toNat.inj h)
  simp only [UInt64.toNat_shiftRight, Nat.shiftRight_eq_div_pow]
  simp
  omega

/-- The base of `pow_mod_p` in `powmodp`. -/
def base (a : UInt64) : UInt64 := if P < a then a % P else a

def powmodp (a b : UInt64) : Except DhError UInt64 := pow_mod_p (base a) b

/-- The bytes from `i` on as an `uint32_t`. -/
def word (x : Bytes) (i : Nat) : UInt32 := UInt32.ofNat (Endian.ofLe ((x.drop i).take 4))

/-- `(uint64_t)xx[0] | (uint64_t)xx[1]<<32` -/
def uint64 (x : Bytes) : UInt64 := (word x 0).toUInt64 ||| (word x 4).toUInt64 <<< 32

def push64 (r : UInt64) : Bytes := Endian.le 8 r.toNat

def read64 (x y : Bytes) : Except DhError (UInt64 × UInt64) :=
  if x.length ≠ 8 then .error .x else if y.length ≠ 8 then .error .y else .ok (uint64 x, uint64 y)

def ldhsecret (x y : Bytes) : Except DhError Bytes := do
  let (xx, yy) ← read64 x y
  if xx = 0 ∨ yy = 0 then .error .zero
  let r ← powmodp xx yy
  return push64 r

def G : UInt64 := 5

def ldhexchange (x : Bytes) : Except DhError Bytes := do
  if x.length ≠ 8 then .error .key
  if uint64 x = 0 then .error .zero
  let r ← powmodp G (uint64 x)
  return push64 r

/-! ### The modulus -/

theorem toNat_P : P.toNat = 18446744073709551557 := rfl

theorem P_pos : 0 < P.toNat := by simp [toNat_P]

theorem zero_lt_P : (0 : UInt64) < P := by
  rw [UInt64.lt_iff_toNat_lt]
  exact P_pos

/-- A number is a prime when some number has the order `p - 1` modulo it, by the prime factors of `p - 1`. -/
theorem prime_of_factors {p : Nat} (a : ZMod p) (qs : List Nat) (hprime : ∀ q ∈ qs, q.Prime) (hprod : p - 1 = qs.prod)
    (ha : a ^ (p - 1) = 1) (hq : ∀ q ∈ qs, a ^ ((p - 1) / q) ≠ 1) : p.Prime := by
  refine lucas_primality p a ha fun q hq' hdvd => ?_
  rw [hprod, hq'.prime.dvd_prod_iff] at hdvd
  obtain ⟨r, hr, hdvd⟩ := hdvd
  rw [(Nat.prime_dvd_prime_iff_eq hq' (hprime r hr)).mp hdvd]
  exact hq r hr

theorem prime_factor : Nat.Prime 5594472617641 := by
  refine prime_of_factors 13 [2, 2, 2, 3, 5, 1427, 2131, 15331] ?_ (by norm_num) (by reduce_mod_char) ?_
  · simp only [List.forall_mem_cons]
    norm_num
  · simp only [List.forall_mem_cons]
    norm_num
    reduce_mod_char
    decide

theorem P_prime : P.toNat.Prime := by
  have hfactors : P.toNat - 1 = [2, 2, 11, 137, 547, 5594472617641].prod := by simp [toNat_P]
  rw [toNat_P] at hfactors ⊢
  refine prime_of_factors 2 _ ?_ hfactors (by reduce_mod_char) ?_
  · simp only [List.forall_mem_cons]
    refine ⟨by norm_num, by norm_num, by norm_num, by norm_num, by norm_num, prime_factor, by simp⟩
  · simp only [List.forall_mem_cons]
    norm_num
    reduce_mod_char
    decide

/-! ### Products -/

theorem toNat_P_sub {a : UInt64} (ha : a < P) : (P - a).toNat = P.toNat - a.toNat :=
  UInt64.toNat_sub_of_le _ _ (UInt64.le_of_lt ha)

namespace Mul

/-- Doubling wraps around `2 ^ 64` and back. -/
theorem wrap_double {a p : Nat} (hp : p < 2 ^ 64) (ha : a < p) (h : p - a ≤ a) :
    (2 ^ 64 - p + a * 2 % 2 ^ 64) % 2 ^ 64 = 2 * a % p := by
  have hmod : 2 * a % p = 2 * a - p := by
    rw [Nat.mod_eq_sub_mod (by omega), Nat.mod_eq_of_lt (by omega)]
  rw [hmod]
  obtain hlt | hle := Nat.lt_or_ge (a * 2) (2 ^ 64)
  · have hwrap : a * 2 % 2 ^ 64 = a * 2 := Nat.mod_eq_of_lt hlt
    omega
  · have hwrap : a * 2 % 2 ^ 64 = a * 2 - 2 ^ 64 := by
      rw [Nat.mod_eq_sub_mod hle, Nat.mod_eq_of_lt (by omega)]
    omega

theorem toNat_step_a {s : Mul} (ha : s.a < P) : s.step.a.toNat = 2 * s.a.toNat % P.toNat := by
  have ht := toNat_P_sub ha
  have hdouble : (s.a * 2).toNat = s.a.toNat * 2 % 2 ^ 64 := UInt64.toNat_mul _ _
  rw [UInt64.lt_iff_toNat_lt] at ha
  simp only [step, UInt64.le_iff_toNat_le, ht]
  split
  · rename_i hle
    rw [UInt64.toNat_sub, hdouble]
    exact wrap_double P.toNat_lt ha hle
  · have hlt := P.toNat_lt
    have hwrap : s.a.toNat * 2 % 2 ^ 64 = s.a.toNat * 2 := Nat.mod_eq_of_lt (by omega)
    have hmod : 2 * s.a.toNat % P.toNat = 2 * s.a.toNat := Nat.mod_eq_of_lt (by omega)
    rw [hdouble, hwrap, hmod, Nat.mul_comm]

/-- The sum wraps around `P` before it could wrap around `2 ^ 64`. -/
theorem toNat_step_m {s : Mul} (hm : s.m < P) (ha : s.a < P) :
    s.step.m.toNat = (s.m.toNat + s.a.toNat * (s.b.toNat % 2)) % P.toNat := by
  have ht := toNat_P_sub ha
  have hbit : (s.b &&& 1 ≠ 0) ↔ s.b.toNat % 2 = 1 := by
    rw [ne_eq, ← UInt64.toNat_inj, UInt64.toNat_and]
    simp only [UInt64.reduceToNat, Nat.and_one_is_mod]
    omega
  rw [UInt64.lt_iff_toNat_lt] at ha hm
  have hlt := P.toNat_lt
  simp only [step, hbit, UInt64.le_iff_toNat_le, ht]
  split
  · rename_i hodd
    rw [hodd, Nat.mul_one]
    split
    · rename_i hle
      have hmod : (s.m.toNat + s.a.toNat) % P.toNat = s.m.toNat + s.a.toNat - P.toNat := by
        rw [Nat.mod_eq_sub_mod (by omega), Nat.mod_eq_of_lt (by omega)]
      rw [UInt64.toNat_sub_of_le _ _ (by rwa [UInt64.le_iff_toNat_le, ht]), ht, hmod]
      omega
    · rw [UInt64.toNat_add, Nat.mod_eq_of_lt (by omega), Nat.mod_eq_of_lt (by omega)]
  · rename_i heven
    rw [show s.b.toNat % 2 = 0 by omega, Nat.mul_zero, Nat.add_zero, Nat.mod_eq_of_lt hm]

/-- What holds of the variables before a turn: they are below `P`, also `t`, and the turn leaves what it should, with
nothing lost in the arithmetic of 64 bits. -/
structure Exact (s : Mul) : Prop where
  m_lt : s.m < P
  a_pos : 0 < s.a
  a_lt : s.a < P
  t_lt : P - s.a < P
  m_step : s.step.m.toNat = (s.m.toNat + s.a.toNat * (s.b.toNat % 2)) % P.toNat
  a_step : s.step.a.toNat = 2 * s.a.toNat % P.toNat

theorem exact_of_lt {s : Mul} (hm : s.m < P) (hpos : 0 < s.a) (ha : s.a < P) : s.Exact := by
  refine ⟨hm, hpos, ha, ?_, toNat_step_m hm ha, toNat_step_a ha⟩
  rw [UInt64.lt_iff_toNat_lt, toNat_P_sub ha]
  rw [UInt64.lt_iff_toNat_lt, UInt64.toNat_zero] at hpos
  rw [toNat_P]
  omega

/-- The double of a number below an odd one is no multiple of it. -/
theorem double_mod_pos {a p : Nat} (hodd : p % 2 = 1) (hpos : 0 < a) (ha : a < p) : 0 < 2 * a % p := by
  obtain hlt | hle := Nat.lt_or_ge (2 * a) p
  · rw [Nat.mod_eq_of_lt hlt]
    omega
  · rw [Nat.mod_eq_sub_mod hle, Nat.mod_eq_of_lt (by omega)]
    omega

theorem Exact.step {s : Mul} (h : s.Exact) : s.step.Exact := by
  have hpos := h.a_pos
  have ha := h.a_lt
  rw [UInt64.lt_iff_toNat_lt] at hpos ha
  apply exact_of_lt <;> rw [UInt64.lt_iff_toNat_lt]
  · rw [h.m_step]
    exact Nat.mod_lt _ P_pos
  · rw [h.a_step]
    exact double_mod_pos (by rw [toNat_P]) hpos ha
  · rw [h.a_step]
    exact Nat.mod_lt _ P_pos

theorem Exact.iterate {s : Mul} (h : s.Exact) (n : Nat) : (Mul.step^[n] s).Exact := by
  induction n with
  | zero => exact h
  | succ n ih =>
    rw [Function.iterate_succ_apply']
    exact ih.step

/-- The loop adds the product to `m`. -/
theorem run_spec {s : Mul} (h : s.Exact) : s.run.toNat = (s.m.toNat + s.a.toNat * s.b.toNat) % P.toNat := by
  fun_induction run s with
  | case1 s hb =>
    have hm := h.m_lt
    rw [UInt64.lt_iff_toNat_lt] at hm
    rw [hb, UInt64.toNat_zero, Nat.mul_zero, Nat.add_zero, Nat.mod_eq_of_lt hm]
  | case2 s hb ih =>
    rw [ih h.step, h.m_step, h.a_step, toNat_step_b]
    have hsplit : s.m.toNat + s.a.toNat * s.b.toNat =
        s.m.toNat + s.a.toNat * (s.b.toNat % 2) + 2 * s.a.toNat * (s.b.toNat / 2) := by
      conv_lhs => rw [← Nat.mod_add_div s.b.toNat 2]
      ring
    rw [hsplit]
    exact (Nat.ModEq.add (Nat.mod_modEq _ _) ((Nat.mod_modEq _ _).mul_right _))

end Mul

theorem mul_mod_p_spec {a b : UInt64} (hpos : 0 < a) (ha : a < P) :
    (mul_mod_p a b).toNat = a.toNat * b.toNat % P.toNat := by
  rw [mul_mod_p, Mul.run_spec (Mul.exact_of_lt zero_lt_P hpos ha), UInt64.toNat_zero, Nat.zero_add]

/-! ### Powers -/

/-- `t` is the power of `a` modulo `P`. -/
def IsPow (a : UInt64) (k : Nat) (t : UInt64) : Prop := t.toNat = a.toNat ^ k % P.toNat

theorem IsPow.lt {a t : UInt64} {k : Nat} (h : IsPow a k t) : t < P := by
  rw [UInt64.lt_iff_toNat_lt, h]
  exact Nat.mod_lt _ P_pos

/-- A power of a number that is no multiple of a prime is none either. -/
theorem IsPow.pos {a t : UInt64} {k : Nat} (ha : ¬P.toNat ∣ a.toNat) (h : IsPow a k t) : 0 < t := by
  rw [UInt64.lt_iff_toNat_lt, UInt64.toNat_zero, h]
  exact Nat.pos_of_ne_zero fun hzero => ha (P_prime.dvd_of_dvd_pow (Nat.dvd_of_mod_eq_zero hzero))

theorem IsPow.mul {a t u : UInt64} {k l : Nat} (ha : ¬P.toNat ∣ a.toNat) (ht : IsPow a k t) (hu : IsPow a l u) :
    IsPow a (k + l) (mul_mod_p t u) := by
  rw [IsPow, mul_mod_p_spec (ht.pos ha) ht.lt, ht, hu, pow_add, ← Nat.mul_mod]

theorem isPow_one {a : UInt64} (ha : a < P) : IsPow a 1 a := by
  rw [UInt64.lt_iff_toNat_lt] at ha
  rw [IsPow, pow_one, Nat.mod_eq_of_lt ha]

theorem toNat_half (b : UInt64) : (b >>> 1).toNat = b.toNat / 2 := Mul.toNat_step_b ⟨0, 0, b⟩

theorem half_ne_zero {b : UInt64} (h1 : b ≠ 1) (h0 : b ≠ 0) : b >>> 1 ≠ 0 := by
  intro h
  have hhalf := toNat_half b
  rw [h, UInt64.toNat_zero] at hhalf
  have h1' : b.toNat ≠ 1 := fun he => h1 (UInt64.toNat.inj he)
  have h0' : b.toNat ≠ 0 := fun he => h0 (UInt64.toNat.inj he)
  omega

theorem odd_iff (b : UInt64) : b % 2 ≠ 0 ↔ b.toNat % 2 = 1 := by
  rw [ne_eq, ← UInt64.toNat_inj, UInt64.toNat_mod]
  simp only [UInt64.reduceToNat]
  omega

/-- The recursion halves the exponent. -/
theorem pow_mod_p_spec {a b : UInt64} (ha : ¬P.toNat ∣ a.toNat) (hlt : a < P) (hb : b ≠ 0) :
    ∃ t, pow_mod_p a b = .ok t ∧ IsPow a b.toNat t := by
  fun_induction pow_mod_p a b with
  | case1 => exact ⟨a, rfl, isPow_one hlt⟩
  | case2 => exact absurd rfl hb
  | case3 b h1 h0 ih =>
    obtain ⟨t, hrec, ht⟩ := ih (half_ne_zero h1 h0)
    have hsquare := ht.mul ha ht
    rw [toNat_half] at hsquare
    refine ⟨if b % 2 ≠ 0 then mul_mod_p (mul_mod_p t t) a else mul_mod_p t t, by rw [hrec]; rfl, ?_⟩
    by_cases hodd : b % 2 ≠ 0
    · rw [if_pos hodd]
      have hpow := hsquare.mul ha (isPow_one hlt)
      rw [odd_iff] at hodd
      rwa [show b.toNat / 2 + b.toNat / 2 + 1 = b.toNat by omega] at hpow
    · rw [if_neg hodd]
      rw [odd_iff] at hodd
      rwa [show b.toNat / 2 + b.toNat / 2 = b.toNat by omega] at hsquare

/-- The calls of `mul_mod_p` that `pow_mod_p a b` makes. -/
inductive Calls (a : UInt64) : UInt64 → UInt64 → UInt64 → Prop
  | square {b t : UInt64} (h1 : b ≠ 1) (ht : pow_mod_p a (b >>> 1) = .ok t) : Calls a b t t
  | times {b t : UInt64} (h1 : b ≠ 1) (hodd : b % 2 ≠ 0) (ht : pow_mod_p a (b >>> 1) = .ok t) :
    Calls a b (mul_mod_p t t) a
  | inner {b u v : UInt64} (h1 : b ≠ 1) (h : Calls a (b >>> 1) u v) : Calls a b u v

/-- Each of them is made with the powers of `a`. -/
theorem exact_of_calls {a b u v : UInt64} (ha : ¬P.toNat ∣ a.toNat) (hlt : a < P) (h : Calls a b u v) (hb : b ≠ 0) :
    (⟨0, u, v⟩ : Mul).Exact := by
  have hpow {b t : UInt64} (h1 : b ≠ 1) (h0 : b ≠ 0) (ht : pow_mod_p a (b >>> 1) = .ok t) : ∃ k, IsPow a k t := by
    obtain ⟨t', ht', hk⟩ := pow_mod_p_spec ha hlt (half_ne_zero h1 h0)
    cases ht.symm.trans ht'
    exact ⟨_, hk⟩
  induction h with
  | square h1 ht =>
    obtain ⟨k, hk⟩ := hpow h1 hb ht
    exact Mul.exact_of_lt zero_lt_P (hk.pos ha) hk.lt
  | times h1 hodd ht =>
    obtain ⟨k, hk⟩ := hpow h1 hb ht
    have hsquare := hk.mul ha hk
    exact Mul.exact_of_lt zero_lt_P (hsquare.pos ha) hsquare.lt
  | inner h1 _ ih => exact ih (half_ne_zero h1 hb)

/-! ### The reduced base -/

theorem base_lt (a : UInt64) (ha : ¬P.toNat ∣ a.toNat) : base a < P := by
  rw [base]
  split
  · rw [UInt64.lt_iff_toNat_lt, UInt64.toNat_mod]
    exact Nat.mod_lt _ P_pos
  · rename_i hle
    rw [UInt64.lt_iff_toNat_lt] at hle ⊢
    have hne : a.toNat ≠ P.toNat := by
      intro he
      exact ha (he ▸ dvd_rfl)
    omega

theorem base_modEq (a : UInt64) : (base a).toNat ≡ a.toNat [MOD P.toNat] := by
  rw [base]
  split
  · rw [UInt64.toNat_mod]
    exact Nat.mod_modEq _ _
  · rfl

theorem base_not_dvd {a : UInt64} (ha : ¬P.toNat ∣ a.toNat) : ¬P.toNat ∣ (base a).toNat := by
  rwa [(base_modEq a).dvd_iff dvd_rfl]

theorem powmodp_spec {a b : UInt64} (ha : ¬P.toNat ∣ a.toNat) (hb : b ≠ 0) :
    powmodp a b = .ok (UInt64.ofNat (a.toNat ^ b.toNat % P.toNat)) := by
  obtain ⟨t, ht, hpow⟩ := pow_mod_p_spec (base_not_dvd ha) (base_lt a ha) hb
  rw [IsPow, (base_modEq a).pow b.toNat] at hpow
  rw [powmodp, ht, ← hpow, UInt64.ofNat_toNat]

/-! ### Bytes -/

theorem word_push64 (r : UInt64) :
    (word (push64 r) 0).toNat = r.toNat % 2 ^ 32 ∧ (word (push64 r) 4).toNat = r.toNat / 2 ^ 32 := by
  have hr := r.toNat_lt
  have hsplit : push64 r = Endian.le 4 r.toNat ++ Endian.le 4 (r.toNat / 256 ^ 4) := Endian.le_add 4 4 r.toNat
  have hlow : (push64 r).take 4 = Endian.le 4 r.toNat := by
    rw [hsplit, List.take_left' (Endian.le_length ..)]
  have hhigh : ((push64 r).drop 4).take 4 = Endian.le 4 (r.toNat / 256 ^ 4) := by
    rw [hsplit, List.drop_left' (Endian.le_length ..), List.take_of_length_le (by simp)]
  constructor
  · rw [word, List.drop_zero, hlow, Endian.ofLe_le, UInt32.toNat_ofNat']
    omega
  · rw [word, hhigh, Endian.ofLe_le, UInt32.toNat_ofNat']
    omega

@[simp] theorem uint64_push64 (r : UInt64) : uint64 (push64 r) = r := by
  have hr := r.toNat_lt
  obtain ⟨hlow, hhigh⟩ := word_push64 r
  apply UInt64.toNat.inj
  rw [uint64, UInt64.toNat_or, UInt64.toNat_shiftLeft, UInt32.toNat_toUInt64, UInt32.toNat_toUInt64, hlow, hhigh,
    show UInt64.toNat 32 % 64 = 32 from rfl, Nat.or_comm, Nat.mod_eq_of_lt (by rw [Nat.shiftLeft_eq]; omega),
    ← Nat.shiftLeft_add_eq_or_of_lt (Nat.mod_lt _ (Nat.two_pow_pos _)), Nat.shiftLeft_eq]
  omega

@[simp] theorem push64_length (r : UInt64) : (push64 r).length = 8 := Endian.le_length ..

/-! ### The exchange -/

/-- What `ldhexchange` gives is no zero, so `ldhsecret` takes it. -/
theorem ldhexchange_spec {x : UInt64} (hx : x ≠ 0) :
    ∃ r, ldhexchange (push64 x) = .ok (push64 r) ∧ r ≠ 0 ∧ r.toNat = 5 ^ x.toNat % P.toNat := by
  have hG : ¬P.toNat ∣ G.toNat := by decide
  have hpow := powmodp_spec hG hx
  have hlt : 5 ^ x.toNat % P.toNat < 2 ^ 64 := (Nat.mod_lt _ P_pos).trans (by decide)
  have hr : (UInt64.ofNat (5 ^ x.toNat % P.toNat)).toNat = 5 ^ x.toNat % P.toNat := UInt64.toNat_ofNat_of_lt hlt
  refine ⟨UInt64.ofNat (5 ^ x.toNat % P.toNat), ?_, ?_, hr⟩
  · simp only [ldhexchange, push64_length, uint64_push64, hx, hpow]
    rfl
  · exact (UInt64.pos_iff_ne_zero.mp (IsPow.pos (a := 5) hG hr))

theorem ldhsecret_spec {r y : UInt64} (hr : r ≠ 0) (hr' : ¬P.toNat ∣ r.toNat) (hy : y ≠ 0) :
    ldhsecret (push64 r) (push64 y) = .ok (push64 (UInt64.ofNat (r.toNat ^ y.toNat % P.toNat))) := by
  have hread : read64 (push64 r) (push64 y) = .ok (r, y) := by simp [read64]
  have hzero : ¬(r = 0 ∨ y = 0) := by simp [hr, hy]
  rw [ldhsecret, hread]
  change (if r = 0 ∨ y = 0 then _ else _) = _
  rw [if_neg hzero, powmodp_spec hr' hy]
  rfl

theorem secret_spec {x y : UInt64} (hx : x ≠ 0) (hy : y ≠ 0) :
    (ldhexchange (push64 x) >>= fun gx => ldhsecret gx (push64 y)) =
      .ok (push64 (UInt64.ofNat (5 ^ (x.toNat * y.toNat) % P.toNat))) := by
  obtain ⟨r, hexchange, hne, hr⟩ := ldhexchange_spec hx
  have hnot : ¬P.toNat ∣ r.toNat := by
    intro hdvd
    have hlt : r.toNat < P.toNat := hr ▸ Nat.mod_lt _ P_pos
    have hzero : r.toNat = 0 := Nat.eq_zero_of_dvd_of_lt hdvd hlt
    exact hne (UInt64.toNat.inj hzero)
  rw [hexchange]
  change ldhsecret (push64 r) (push64 y) = _
  rw [ldhsecret_spec hne hnot hy, hr, ← Nat.pow_mod, ← pow_mul]

/-- Both sides of the exchange have the same secret, the power of 5 by the product of their numbers. `powmodp` is the
power modulo `P` for a base that is no multiple of `P`, and no product on the way leaves the numbers below `P`. -/
theorem dh_agreement (x y a b : UInt64) (hx : x ≠ 0) (hy : y ≠ 0) (ha : ¬P.toNat ∣ a.toNat) (hb : b ≠ 0) :
    (ldhexchange (push64 x) >>= fun gx => ldhsecret gx (push64 y)) =
      .ok (push64 (UInt64.ofNat (5 ^ (x.toNat * y.toNat) % P.toNat))) ∧
    (ldhexchange (push64 y) >>= fun gy => ldhsecret gy (push64 x)) =
      .ok (push64 (UInt64.ofNat (5 ^ (x.toNat * y.toNat) % P.toNat))) ∧
    powmodp a b = .ok (UInt64.ofNat (a.toNat ^ b.toNat % P.toNat)) ∧
    ∀ u v, Calls (base a) b u v → ∀ n, (Mul.step^[n] ⟨0, u, v⟩).Exact := by
  refine ⟨secret_spec hx hy, ?_, powmodp_spec ha hb, fun u v h n => ?_⟩
  · rw [secret_spec hy hx, Nat.mul_comm]
  · exact (exact_of_calls (base_not_dvd ha) (base_lt a ha) h hb).iterate n

theorem dh_agreement_small :
    (ldhexchange (push64 1) >>= fun gx => ldhsecret gx (push64 2)) =
      .ok (push64 (UInt64.ofNat (5 ^ ((1 : UInt64).toNat * (2 : UInt64).toNat) % P.toNat))) ∧
    powmodp 7 3 = .ok (UInt64.ofNat ((7 : UInt64).toNat ^ (3 : UInt64).toNat % P.toNat)) := by
  have h := dh_agreement 1 2 7 3 (by decide) (by decide) (by simp [toNat_P]) (by decide)
  exact ⟨h.1, h.2.2.1⟩

end Crypt
end Skynet
