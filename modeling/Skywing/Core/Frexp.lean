import Mathlib.Data.Int.Log
import Mathlib.Algebra.Order.Floor.Ring
import Mathlib.Tactic.Linarith
import Mathlib.Tactic.Ring

/-!
# Fraction and exponent

`frexp`: a number other than 0 is `fraction * 2 ^ exponent` for one fraction
of absolute value in `[1/2, 1)` and one exponent; 0 has the exponent 0. So
numbers in this form are equal where their parts are (`IsNormal.unique`), and
positive ones are compared by their exponents first (`IsNormal.lt_of_exp_lt`).
-/
namespace Frexp

variable {K : Type*} [Field K] [LinearOrder K]

/-- The form `frexp` gives. -/
def IsNormal (exp : ℤ) (fraction : K) : Prop :=
  (fraction = 0 ∧ exp = 0) ∨ (1 / 2 ≤ |fraction| ∧ |fraction| < 1)

theorem IsNormal.neg {e : ℤ} {f : K} (h : IsNormal e f) : IsNormal e (-f) := by
  rcases h with ⟨rfl, rfl⟩ | h
  · exact .inl (by simp)
  · exact .inr (by rwa [abs_neg])

section Parts

variable [FloorSemiring K]

def exponent (x : K) : ℤ := if x = 0 then 0 else Int.log 2 |x| + 1

def fraction (x : K) : K := x / 2 ^ exponent x

@[simp] theorem exponent_zero : exponent (0 : K) = 0 := if_pos rfl

@[simp] theorem fraction_zero : fraction (0 : K) = 0 := by simp [fraction]

@[simp] theorem fraction_eq_zero {x : K} : fraction x = 0 ↔ x = 0 := by
  simp [fraction, zpow_ne_zero]

variable [IsStrictOrderedRing K]

theorem fraction_mul_zpow (x : K) : fraction x * 2 ^ exponent x = x :=
  div_mul_cancel₀ x (zpow_pos two_pos _).ne'

theorem isNormal (x : K) : IsNormal (exponent x) (fraction x) := by
  by_cases hx : x = 0
  · subst hx
    exact .inl (by simp)
  · have hpos : 0 < |x| := abs_pos.mpr hx
    have hexp : exponent x = Int.log 2 |x| + 1 := if_neg hx
    have hpow : (0 : K) < 2 ^ exponent x := zpow_pos two_pos _
    have hfrac : |fraction x| = |x| / 2 ^ exponent x := by
      rw [fraction, abs_div, abs_of_pos hpow]
    have hlow : (2 : K) ^ Int.log 2 |x| ≤ |x| := by exact_mod_cast Int.zpow_log_le_self one_lt_two hpos
    have hhigh : |x| < (2 : K) ^ exponent x := by
      rw [hexp]
      exact_mod_cast Int.lt_zpow_succ_log_self (R := K) one_lt_two |x|
    refine .inr ⟨?_, ?_⟩
    · rw [hfrac, le_div_iff₀ hpow, hexp, zpow_add_one₀ two_ne_zero]
      linarith
    · rw [hfrac, div_lt_one hpow]
      exact hhigh

end Parts

namespace IsNormal

variable [IsStrictOrderedRing K]
variable {e e' : ℤ} {f f' : K}

/-- A fraction in the interval keeps its exponent. -/
theorem bounds (h : IsNormal e f) (hf : 0 < f) : 1 / 2 ≤ f ∧ f < 1 := by
  rcases h with ⟨rfl, -⟩ | h
  · exact absurd hf (lt_irrefl 0)
  · rwa [abs_of_pos hf] at h

/-- Of positive numbers the one with the smaller exponent is smaller. -/
theorem lt_of_exp_lt (h : IsNormal e f) (h' : IsNormal e' f') (hf : 0 < f) (hf' : 0 < f') (he : e < e') :
    f * 2 ^ e < f' * 2 ^ e' := by
  obtain ⟨-, hlt⟩ := h.bounds hf
  obtain ⟨hle, -⟩ := h'.bounds hf'
  have hpow : (0 : K) < 2 ^ e := zpow_pos two_pos _
  have hstep : (2 : K) ^ (e + 1) ≤ 2 ^ e' := zpow_le_zpow_right₀ one_le_two (by omega)
  rw [zpow_add_one₀ two_ne_zero] at hstep
  have hhalf : 1 / 2 * (2 ^ e * 2) ≤ f' * 2 ^ e' := mul_le_mul hle hstep (mul_pos hpow two_pos).le hf'.le
  calc f * 2 ^ e < 1 * 2 ^ e := by gcongr
    _ = 1 / 2 * (2 ^ e * 2) := by ring
    _ ≤ f' * 2 ^ e' := hhalf

/-- The exponent of a positive number below `2 ^ k` is at most `k`, -/
theorem exp_le (h : IsNormal e f) (hf : 0 < f) {k : ℤ} (hk : f * 2 ^ e < 2 ^ k) : e ≤ k := by
  by_contra hlt
  obtain ⟨hle, -⟩ := h.bounds hf
  have hstep : (2 : K) ^ (k + 1) ≤ 2 ^ e := zpow_le_zpow_right₀ one_le_two (by omega)
  rw [zpow_add_one₀ two_ne_zero] at hstep
  have : 1 / 2 * (2 ^ k * 2) ≤ f * 2 ^ e := mul_le_mul hle hstep (mul_pos (zpow_pos two_pos k) two_pos).le hf.le
  linarith

/-- and that of a number from `2 ^ k` on is above `k`. -/
theorem lt_exp (h : IsNormal e f) (hf : 0 < f) {k : ℤ} (hk : 2 ^ k ≤ f * 2 ^ e) : k < e := by
  by_contra hle
  obtain ⟨-, hlt⟩ := h.bounds hf
  have hstep : (2 : K) ^ e ≤ 2 ^ k := zpow_le_zpow_right₀ one_le_two (by omega)
  have hpow : (0 : K) < 2 ^ e := zpow_pos two_pos _
  have : f * 2 ^ e < 1 * 2 ^ e := by gcongr
  linarith

/-- A number has one such form. -/
theorem unique (h : IsNormal e f) (h' : IsNormal e' f') (heq : f * 2 ^ e = f' * 2 ^ e') : e = e' ∧ f = f' := by
  have hpos {e e' : ℤ} {f f' : K} (h : IsNormal e f) (h' : IsNormal e' f') (heq : f * 2 ^ e = f' * 2 ^ e')
      (hf : 0 < f) : e = e' ∧ f = f' := by
    have hpow (k : ℤ) : (0 : K) < 2 ^ k := zpow_pos two_pos k
    have hf' : 0 < f' := by
      have : 0 < f' * 2 ^ e' := heq ▸ mul_pos hf (hpow e)
      exact (mul_pos_iff_of_pos_right (hpow e')).mp this
    have he : e = e' := by
      rcases lt_trichotomy e e' with hlt | he | hgt
      · exact absurd heq (h.lt_of_exp_lt h' hf hf' hlt).ne
      · exact he
      · exact absurd heq (h'.lt_of_exp_lt h hf' hf hgt).ne'
    subst he
    exact ⟨rfl, mul_right_cancel₀ (hpow e).ne' heq⟩
  rcases lt_trichotomy f 0 with hf | hf | hf
  · have := hpos h.neg h'.neg (by simpa using heq) (neg_pos.mpr hf)
    simpa using this
  · subst hf
    have hf' : f' = 0 := by simpa [zpow_ne_zero] using heq.symm
    subst hf'
    rcases h with ⟨-, rfl⟩ | ⟨hno, -⟩
    · rcases h' with ⟨-, rfl⟩ | ⟨hno, -⟩
      · exact ⟨rfl, rfl⟩
      · norm_num at hno
    · norm_num at hno
  · exact hpos h h' heq hf

end IsNormal

/-- The exponent of a number given in this form. -/
theorem exponent_eq [FloorSemiring K] [IsStrictOrderedRing K] {e : ℤ} {f x : K} (h : IsNormal e f)
    (hx : f * 2 ^ e = x) : exponent x = e :=
  ((isNormal x).unique h ((fraction_mul_zpow x).trans hx.symm)).1

end Frexp
