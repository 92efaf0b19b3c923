import Skywing.Core.Ends
import Skywing.L4App.BigFloat

/-!
# Powers of two (`pow2`, `skywing_mid/big_float.hpp`)

`pow2` raises `2 ^ fraction` to the power `2 ^ exp` by squaring, and keeps the
exponents in `std::int64_t`. `std::pow(2.0, _)` is a parameter. An exponent
that leaves the 64 bits is an error here (`int64`).

The size check lets 63 through, and `2 ^ 63` is not a `std::int64_t`: the
shift gives the lowest one.

Results:
* `pow2_iff`: the result is the power, and nothing leaves the 64 bits, exactly
  for exponents up to 62.
* `pow2_overflow`: the square root of 2 to the power `2 ^ 63`.
-/
namespace Skywing.L4.BigFloat

open Frexp (IsNormal)

inductive Pow2Error
  /-- `std::runtime_error` -/
  | tooLarge
  | overflow
  deriving DecidableEq, Repr

/-- A 64-bit result. -/
def int64 (z : ℤ) : Except Pow2Error ℤ := if -2 ^ 63 ≤ z ∧ z < 2 ^ 63 then .ok z else .error .overflow

/-- `create` with 64-bit exponents.
mirrors skywing/skywing_mid/big_float.hpp:48-55 -/
def create64 (exp : ℤ) (fraction : ℚ) : Except Pow2Error BigFloat :=
  if Frexp.fraction fraction = 0 then .ok ⟨0, Frexp.fraction fraction⟩
  else do return ⟨← int64 (exp + Frexp.exponent fraction), Frexp.fraction fraction⟩

/-- mirrors skywing/skywing_mid/big_float.hpp:123-124 -/
def mul64 (a b : BigFloat) : Except Pow2Error BigFloat := do
  create64 (← int64 (a.exp + b.exp)) (a.fraction * b.fraction)

/-- mirrors skywing/skywing_mid/big_float.hpp:202-203 -/
def squareTimes : ℕ → BigFloat → Except Pow2Error BigFloat
  | 0, newFrac => .ok newFrac
  | i + 1, newFrac => do squareTimes i (← mul64 newFrac newFrac)

/-- mirrors skywing/skywing_mid/big_float.hpp:171-209 -/
def pow2 (pow2d : ℚ → ℚ) (input : BigFloat) : Except Pow2Error BigFloat :=
  if input.exp < 0 then .ok (ofFloat (pow2d input.toDouble))
  else if 63 < |input.exp| then .error .tooLarge
  else do
    let newBase := ofFloat (pow2d input.fraction)
    let twoExp ← int64 (2 ^ input.exp.toNat)
    let newExp ← int64 (newBase.exp * twoExp)
    let newFrac ← squareTimes input.exp.toNat (ofFloat newBase.fraction)
    create64 (← int64 (newExp + newFrac.exp)) newFrac.fraction

/-! ## Within the 64 bits -/

variable {a b : BigFloat} {x y : ℚ} {z : ℤ}

theorem int64_ok (h : -2 ^ 63 ≤ z) (h' : z < 2 ^ 63) : int64 z = .ok z := if_pos ⟨h, h'⟩

/-- The exponent of the result decides. -/
theorem create64_ok {exp : ℤ} {fraction : ℚ} (h : -2 ^ 63 ≤ (create exp fraction).exp)
    (h' : (create exp fraction).exp < 2 ^ 63) : create64 exp fraction = .ok (create exp fraction) := by
  unfold create at h h' ⊢
  unfold create64
  split at h
  · rename_i hz
    rw [if_pos hz, if_pos hz]
  · rename_i hz
    rw [if_neg hz] at h' ⊢
    rw [if_neg hz, int64_ok h h']
    rfl

/-- A positive number below 1 is at most `2 ^ 0`, and its exponent bounds it
from below. -/
theorem Exact.exp_bounds (h : Exact a x) (hx : x < 1) {n : ℕ} (hn : (1 / 2) ^ n ≤ x) :
    -(n : ℤ) < a.exp ∧ a.exp ≤ 0 := by
  have hpos : 0 < x := lt_of_lt_of_le (by positivity) hn
  have hf := h.pos_iff.mpr hpos
  constructor
  · refine h.normal.lt_exp hf ?_
    rw [zpow_neg, zpow_natCast, ← inv_pow, ← one_div]
    exact hn.trans_eq h.value.symm
  · refine h.normal.exp_le hf ?_
    rw [zpow_zero]
    exact (h.value.trans_lt hx : a.toDouble < 1)

/-- The exponent after `k` squarings. -/
theorem Exact.square_bounds {f : ℚ} (hf : 1 / 2 ≤ f) (hf₁ : f < 1) {k : ℕ} (h : Exact a (f ^ 2 ^ k)) :
    -(2 : ℤ) ^ k < a.exp ∧ a.exp ≤ 0 := by
  have hlt : f ^ 2 ^ k < 1 := pow_lt_one₀ (by linarith) hf₁ (pow_ne_zero k two_ne_zero)
  have hle : (1 / 2) ^ 2 ^ k ≤ f ^ 2 ^ k := pow_le_pow_left₀ (by norm_num) hf _
  simpa using h.exp_bounds hlt hle

theorem two_pow_le {n : ℕ} (hn : n ≤ 62) : (2 : ℤ) ^ n ≤ 2 ^ 62 := pow_le_pow_right₀ one_le_two hn

/-- The loop, after `k` squarings. -/
theorem squareTimes_ok {f : ℚ} (hf : 1 / 2 ≤ f) (hf₁ : f < 1) : ∀ (i k : ℕ) (a : BigFloat), k + i ≤ 62 →
    Exact a (f ^ 2 ^ k) → ∃ r, squareTimes i a = .ok r ∧ Exact r (f ^ 2 ^ (k + i))
  | 0, k, a, _, ha => ⟨a, rfl, ha⟩
  | i + 1, k, a, hk, ha => by
    have hsq : Exact (a.mul a) (f ^ 2 ^ (k + 1)) := (ha.mul ha).of_eq (by rw [← pow_add, ← two_mul, ← pow_succ'])
    obtain ⟨hlow, hhigh⟩ := ha.square_bounds hf hf₁
    obtain ⟨hlow', hhigh'⟩ := hsq.square_bounds hf hf₁
    have h₁ : (2 : ℤ) ^ k ≤ 2 ^ 62 := two_pow_le (by omega)
    have h₂ : (2 : ℤ) ^ (k + 1) ≤ 2 ^ 62 := two_pow_le (by omega)
    have hmul : mul64 a a = .ok (a.mul a) := by
      unfold mul64
      rw [int64_ok (by omega) (by omega)]
      exact create64_ok (by unfold mul at hlow'; omega) (by unfold mul at hhigh'; omega)
    obtain ⟨r, hr, hexact⟩ := squareTimes_ok hf hf₁ i (k + 1) (a.mul a) (by omega) hsq
    refine ⟨r, ?_, by rwa [← Nat.add_assoc, Nat.add_right_comm]⟩
    unfold squareTimes
    rw [hmul]
    exact hr

/-- A number in normal form is created as it is. -/
theorem create_of_normal {exp : ℤ} {fraction : ℚ} (h : IsNormal exp fraction) :
    create exp fraction = ⟨exp, fraction⟩ := by
  have hc := create_exact exp fraction
  obtain ⟨he, hf⟩ := hc.normal.unique h hc.value
  exact BigFloat.ext he hf

/-! ## The result -/

/-- The result is the base to the power `2 ^ exp`, and nothing overflows. -/
def Powers (pow2d : ℚ → ℚ) (input : BigFloat) : Prop :=
  ∃ r, pow2 pow2d input = .ok r ∧ r.toDouble = (ofFloat (pow2d input.fraction)).toDouble ^ 2 ^ input.exp.toNat

theorem powers {pow2d : ℚ → ℚ} {input : BigFloat} (h₀ : 0 ≤ input.exp) (h : input.exp ≤ 62)
    (hbase : 0 < pow2d input.fraction) (hlow : 0 ≤ (ofFloat (pow2d input.fraction)).exp)
    (hhigh : (ofFloat (pow2d input.fraction)).exp ≤ 1) : Powers pow2d input := by
  obtain ⟨n, hn⟩ := Int.eq_ofNat_of_zero_le h₀
  have hle : n ≤ 62 := by omega
  have hpow : (2 : ℤ) ^ n ≤ 2 ^ 62 := two_pow_le hle
  have hpos : (0 : ℤ) < 2 ^ n := by positivity
  unfold Powers pow2
  rw [hn, if_neg (by omega), if_neg (by rw [abs_of_nonneg (by omega)]; omega), Int.toNat_natCast]
  have hexact := ofFloat_exact (pow2d input.fraction)
  generalize ofFloat (pow2d input.fraction) = base at hexact hlow hhigh ⊢
  obtain ⟨hf, hf₁⟩ := hexact.normal.bounds (hexact.pos_iff.mpr hbase)
  -- the fraction of the base, squared `n` times
  obtain ⟨r, hr, hr'⟩ := squareTimes_ok hf hf₁ n 0 (ofFloat base.fraction) (by omega)
    ((ofFloat_exact base.fraction).of_eq (by rw [pow_zero, pow_one]))
  rw [Nat.zero_add] at hr'
  obtain ⟨hrlow, hrhigh⟩ := hr'.square_bounds hf hf₁
  have hnew : 0 ≤ base.exp * 2 ^ n ∧ base.exp * 2 ^ n ≤ 2 ^ n := ⟨by positivity, by nlinarith⟩
  have hfrac : 0 < r.fraction := hr'.pos_iff.mpr (by positivity)
  have hnormal : IsNormal (base.exp * 2 ^ n + r.exp) r.fraction :=
    .inr (hr'.normal.resolve_left fun h => hfrac.ne' h.1)
  have hcreate := create_of_normal hnormal
  refine ⟨create (base.exp * 2 ^ n + r.exp) r.fraction, ?_, ?_⟩
  · have h64 : create64 (base.exp * 2 ^ n + r.exp) r.fraction = .ok (create (base.exp * 2 ^ n + r.exp) r.fraction) :=
      create64_ok (by rw [hcreate]; dsimp only; omega) (by rw [hcreate]; dsimp only; omega)
    dsimp only
    rw [int64_ok (by omega) (by omega), Except.ok_bind, int64_ok (by omega) (by omega), Except.ok_bind, hr,
      Except.ok_bind, int64_ok (by omega) (by omega), Except.ok_bind, h64]
  · have hval : r.fraction * 2 ^ r.exp = base.fraction ^ 2 ^ n := hr'.value
    rw [hcreate]
    calc r.fraction * 2 ^ (base.exp * 2 ^ n + r.exp) = (2 ^ base.exp) ^ 2 ^ n * (r.fraction * 2 ^ r.exp) := by
          have hcast : (2 : ℤ) ^ n = ((2 ^ n : ℕ) : ℤ) := by push_cast; rfl
          rw [zpow_add₀ two_ne_zero, zpow_mul, hcast, zpow_natCast]
          ring
      _ = base.toDouble ^ 2 ^ n := by rw [hval, toDouble, mul_pow]; ring

/-- **`pow2` stays within its 64 bits up to the exponent 62**: of the inputs
that pass the size check, those with the exponent 63 overflow. -/
theorem pow2_iff (pow2d : ℚ → ℚ) (input : BigFloat) (h₀ : 0 ≤ input.exp) (hsize : input.exp ≤ 63)
    (hbase : 0 < pow2d input.fraction)
    (hexp : (ofFloat (pow2d input.fraction)).exp = if input.fraction < 0 then 0 else 1) :
    Powers pow2d input ↔ input.exp ≤ 62 := by
  constructor
  · intro hex
    obtain ⟨r, hr, -⟩ := hex
    by_contra hlt
    have he : input.exp = 63 := by omega
    rw [pow2, he] at hr
    cases hr
  · intro h
    have : 0 ≤ (ofFloat (pow2d input.fraction)).exp ∧ (ofFloat (pow2d input.fraction)).exp ≤ 1 := by
      rw [hexp]
      split <;> simp
    exact powers h₀ h hbase this.1 this.2

/-- `2 ^ (1/2)` as a double. -/
def sqrt2 : ℚ → ℚ := fun _ => 6369051672525773 / 4503599627370496

theorem sqrt2_exp (f : ℚ) : (ofFloat (sqrt2 f)).exp = 1 := by
  refine Frexp.exponent_eq (f := sqrt2 f / 2) (.inr ?_) (by ring)
  norm_num [sqrt2, abs_of_pos]

/-- The square root of 2 to the power `2 ^ 63`. -/
theorem pow2_overflow : IsNormal 63 (1 / 2 : ℚ) ∧ 0 < sqrt2 (1 / 2) ∧ (ofFloat (sqrt2 (1 / 2))).exp = 1 ∧
    ¬ Powers sqrt2 ⟨63, 1 / 2⟩ := by
  refine ⟨.inr (by norm_num), by norm_num [sqrt2], sqrt2_exp _, ?_⟩
  intro hex
  obtain ⟨r, hr, -⟩ := hex
  cases hr

/-- To the power 8. -/
theorem pow2_eight : Powers sqrt2 ⟨3, 1 / 2⟩ :=
  (pow2_iff sqrt2 ⟨3, 1 / 2⟩ (by decide) (by decide) (by norm_num [sqrt2]) (by rw [sqrt2_exp]; norm_num)).mpr
    (by decide)

end Skywing.L4.BigFloat
