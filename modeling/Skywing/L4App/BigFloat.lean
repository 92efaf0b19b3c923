import Mathlib.Data.Rat.Floor
import Mathlib.Tactic.FieldSimp
import Skywing.Core.Frexp

/-!
# Big floats (`skywing_mid/big_float.hpp`)

A `BigFloat` is a fraction and a 64-bit exponent beside it. Here fractions are
exact and exponents unbounded; `pow2`, which comes close to the 64 bits, has a
module of its own.

`Computes a x`: `a` comes from the constructors, the operators and
`PubSubConverter<BigFloat>::deconvert`, and `x` is the number the same
operations give.

Results:
* `ordered`: such numbers are in normal form and exact, and the comparison
  operators compare the numbers they stand for.
-/
namespace Skywing.L4

open Frexp (IsNormal)

/-- mirrors skywing/skywing_mid/big_float.hpp:58-62 -/
@[ext] structure BigFloat where
  exp : ℤ
  fraction : ℚ
  deriving DecidableEq, Repr

namespace BigFloat

/-! ## Constructors -/

/-- mirrors skywing/skywing_mid/big_float.hpp:18-26 -/
def ofFloat (f : ℚ) : BigFloat := ⟨Frexp.exponent f, Frexp.fraction f⟩

/-- mirrors skywing/skywing_mid/big_float.hpp:26 -/
def zero : BigFloat := ⟨0, 0⟩

/-- The private constructor.
mirrors skywing/skywing_mid/big_float.hpp:48-55 -/
def create (exp : ℤ) (fraction : ℚ) : BigFloat :=
  if Frexp.fraction fraction = 0 then ⟨0, Frexp.fraction fraction⟩
  else ⟨exp + Frexp.exponent fraction, Frexp.fraction fraction⟩

/-- mirrors skywing/skywing_mid/big_float.hpp:33-38 -/
def toDouble (a : BigFloat) : ℚ := a.fraction * 2 ^ a.exp

/-! ## Operators -/

/-- mirrors skywing/skywing_mid/big_float.hpp:87-104 -/
def add (a b : BigFloat) : BigFloat :=
  if a.fraction = 0 then b
  else if b.fraction = 0 then a
  else
    let magDiff := a.exp - b.exp
    if 0 < magDiff then create a.exp (a.fraction + b.fraction * 2 ^ (-magDiff))
    else if magDiff < 0 then create b.exp (b.fraction + a.fraction * 2 ^ magDiff)
    else create a.exp (a.fraction + b.fraction)

/-- mirrors skywing/skywing_mid/big_float.hpp:112 -/
def neg (a : BigFloat) : BigFloat := create a.exp (-a.fraction)

/-- mirrors skywing/skywing_mid/big_float.hpp:120-121 -/
def sub (a b : BigFloat) : BigFloat := a.add b.neg

/-- mirrors skywing/skywing_mid/big_float.hpp:123-124 -/
def mul (a b : BigFloat) : BigFloat := create (a.exp + b.exp) (a.fraction * b.fraction)

/-- mirrors skywing/skywing_mid/big_float.hpp:126-127 -/
def div (a b : BigFloat) : BigFloat := create (a.exp - b.exp) (a.fraction / b.fraction)

/-- mirrors skywing/skywing_mid/big_float.hpp:129-130 -/
def scale (d : ℚ) (a : BigFloat) : BigFloat := create a.exp (d * a.fraction)

/-- mirrors skywing/skywing_mid/big_float.hpp:132-133 -/
def unscale (a : BigFloat) (d : ℚ) : BigFloat := create a.exp (a.fraction / d)

/-- mirrors skywing/skywing_mid/big_float.hpp:135-144 -/
def lt (a b : BigFloat) : Bool :=
  if a.fraction = 0 then 0 < b.fraction
  else if b.fraction = 0 then a.fraction < 0
  else if a.exp = b.exp then a.fraction < b.fraction
  else if a.fraction * b.fraction < 0 then a.fraction < b.fraction
  else if 0 < a.fraction then a.exp < b.exp
  else b.exp < a.exp

/-- mirrors skywing/skywing_mid/big_float.hpp:149-150 -/
def beq (a b : BigFloat) : Bool := a.exp == b.exp && a.fraction == b.fraction

/-- mirrors skywing/skywing_mid/big_float.hpp:242-253 -/
def convert (a : BigFloat) : ℤ × ℚ := (a.exp, a.fraction)

def deconvert (ps : ℤ × ℚ) : BigFloat := create ps.1 ps.2

/-! ## What they stand for -/

/-- A number, and what the operations that made it give in exact arithmetic. -/
inductive Computes : BigFloat → ℚ → Prop
  | ofFloat (f : ℚ) : Computes (ofFloat f) f
  | zero : Computes zero 0
  | deconvert (ps : ℤ × ℚ) : Computes (deconvert ps) (ps.2 * 2 ^ ps.1)
  | add {a b : BigFloat} {x y : ℚ} (ha : Computes a x) (hb : Computes b y) : Computes (a.add b) (x + y)
  | neg {a : BigFloat} {x : ℚ} (ha : Computes a x) : Computes a.neg (-x)
  | sub {a b : BigFloat} {x y : ℚ} (ha : Computes a x) (hb : Computes b y) : Computes (a.sub b) (x - y)
  | mul {a b : BigFloat} {x y : ℚ} (ha : Computes a x) (hb : Computes b y) : Computes (a.mul b) (x * y)
  | div {a b : BigFloat} {x y : ℚ} (ha : Computes a x) (hb : Computes b y) (hy : y ≠ 0) : Computes (a.div b) (x / y)
  | scale (d : ℚ) {a : BigFloat} {x : ℚ} (ha : Computes a x) : Computes (scale d a) (d * x)
  | unscale {a : BigFloat} {x : ℚ} (ha : Computes a x) {d : ℚ} (hd : d ≠ 0) : Computes (a.unscale d) (x / d)

/-- In normal form, and `x`. -/
structure Exact (a : BigFloat) (x : ℚ) : Prop where
  normal : IsNormal a.exp a.fraction
  value : a.toDouble = x

variable {a b : BigFloat} {x y : ℚ}

theorem create_exact (exp : ℤ) (fraction : ℚ) : Exact (create exp fraction) (fraction * 2 ^ exp) := by
  have hn := Frexp.isNormal fraction
  have hf := Frexp.fraction_mul_zpow fraction
  unfold create
  split
  · rename_i h
    rw [Frexp.fraction_eq_zero] at h
    subst h
    exact ⟨.inl (by simp), by simp [toDouble]⟩
  · rename_i h
    refine ⟨.inr ?_, ?_⟩
    · exact hn.resolve_left fun h' => h h'.1
    · calc Frexp.fraction fraction * 2 ^ (exp + Frexp.exponent fraction)
          = Frexp.fraction fraction * 2 ^ Frexp.exponent fraction * 2 ^ exp := by
            rw [zpow_add₀ two_ne_zero]
            ring
        _ = fraction * 2 ^ exp := by rw [hf]

theorem Exact.of_eq (h : Exact a x) (hx : x = y) : Exact a y := hx ▸ h

theorem ofFloat_exact (f : ℚ) : Exact (ofFloat f) f := ⟨Frexp.isNormal f, Frexp.fraction_mul_zpow f⟩

/-- Only 0 has the fraction 0. -/
theorem Exact.fraction_eq_zero (h : Exact a x) : a.fraction = 0 ↔ x = 0 := by
  rw [← h.value, toDouble]
  simp [zpow_ne_zero]

theorem Exact.add (ha : Exact a x) (hb : Exact b y) : Exact (a.add b) (x + y) := by
  have hpow (e : ℤ) : (2 : ℚ) ^ e ≠ 0 := zpow_ne_zero e two_ne_zero
  unfold BigFloat.add
  split
  · rename_i h
    exact hb.of_eq (by rw [ha.fraction_eq_zero.mp h, zero_add])
  split
  · rename_i h
    exact ha.of_eq (by rw [hb.fraction_eq_zero.mp h, add_zero])
  -- the smaller exponent is brought to the greater one
  rw [← ha.value, ← hb.value, toDouble, toDouble]
  dsimp only
  split
  · refine (create_exact _ _).of_eq ?_
    rw [neg_sub, zpow_sub₀ two_ne_zero]
    field_simp
  split
  · refine (create_exact _ _).of_eq ?_
    rw [zpow_sub₀ two_ne_zero]
    field_simp
    ring
  · have he : a.exp = b.exp := by omega
    refine (create_exact _ _).of_eq ?_
    rw [he]
    ring

theorem Exact.neg (ha : Exact a x) : Exact a.neg (-x) :=
  (create_exact _ _).of_eq (by rw [← ha.value, toDouble]; ring)

theorem Exact.sub (ha : Exact a x) (hb : Exact b y) : Exact (a.sub b) (x - y) :=
  (ha.add hb.neg).of_eq (by ring)

theorem Exact.mul (ha : Exact a x) (hb : Exact b y) : Exact (a.mul b) (x * y) := by
  refine (create_exact _ _).of_eq ?_
  rw [← ha.value, ← hb.value, toDouble, toDouble, zpow_add₀ two_ne_zero]
  ring

theorem Exact.div (ha : Exact a x) (hb : Exact b y) : Exact (a.div b) (x / y) := by
  refine (create_exact _ _).of_eq ?_
  rw [← ha.value, ← hb.value, toDouble, toDouble, zpow_sub₀ two_ne_zero]
  ring

theorem Exact.scale (d : ℚ) (ha : Exact a x) : Exact (scale d a) (d * x) :=
  (create_exact _ _).of_eq (by rw [← ha.value, toDouble]; ring)

theorem Exact.unscale (ha : Exact a x) (d : ℚ) : Exact (a.unscale d) (x / d) :=
  (create_exact _ _).of_eq (by rw [← ha.value, toDouble]; ring)

theorem Computes.exact (h : Computes a x) : Exact a x := by
  induction h with
  | ofFloat f => exact ofFloat_exact f
  | zero => exact ⟨.inl ⟨rfl, rfl⟩, by simp [BigFloat.zero, toDouble]⟩
  | deconvert ps => exact create_exact _ _
  | add _ _ iha ihb => exact iha.add ihb
  | neg _ iha => exact iha.neg
  | sub _ _ iha ihb => exact iha.sub ihb
  | mul _ _ iha ihb => exact iha.mul ihb
  | div _ _ _ iha ihb => exact iha.div ihb
  | scale d _ iha => exact iha.scale d
  | unscale _ _ iha => exact iha.unscale _

/-! ## Comparison -/

theorem Exact.pos_iff (h : Exact a x) : 0 < a.fraction ↔ 0 < x := by
  rw [← h.value, toDouble, mul_pos_iff_of_pos_right (zpow_pos two_pos _)]

theorem Exact.neg_iff (h : Exact a x) : a.fraction < 0 ↔ x < 0 := by
  have hpow : (0 : ℚ) < 2 ^ a.exp := zpow_pos two_pos _
  rw [← h.value, toDouble, mul_neg_iff]
  simp [hpow, hpow.not_gt]

/-- Positive numbers are compared by their exponents, where these differ. -/
theorem Exact.exp_lt_iff (ha : Exact a x) (hb : Exact b y) (hx : 0 < x) (hy : 0 < y) (he : a.exp ≠ b.exp) :
    a.exp < b.exp ↔ x < y := by
  have hfa := ha.pos_iff.mpr hx
  have hfb := hb.pos_iff.mpr hy
  rw [← ha.value, ← hb.value]
  constructor
  · exact ha.normal.lt_of_exp_lt hb.normal hfa hfb
  · intro hlt
    by_contra hle
    exact lt_asymm hlt (hb.normal.lt_of_exp_lt ha.normal hfb hfa (by omega))

theorem Exact.lt_iff (ha : Exact a x) (hb : Exact b y) : a.lt b = true ↔ x < y := by
  have hpow (e : ℤ) : (0 : ℚ) < 2 ^ e := zpow_pos two_pos e
  unfold lt
  split
  · rename_i h
    rw [ha.fraction_eq_zero.mp h, decide_eq_true_eq, hb.pos_iff]
  rename_i hfa
  split
  · rename_i h
    rw [hb.fraction_eq_zero.mp h, decide_eq_true_eq, ha.neg_iff]
  rename_i hfb
  split
  · rename_i he
    rw [decide_eq_true_eq, ← ha.value, ← hb.value, toDouble, toDouble, he, mul_lt_mul_iff_of_pos_right (hpow _)]
  rename_i he
  have hxa : x ≠ 0 := fun h => hfa (ha.fraction_eq_zero.mpr h)
  have hyb : y ≠ 0 := fun h => hfb (hb.fraction_eq_zero.mpr h)
  split
  · -- numbers of different signs
    rename_i h
    rw [decide_eq_true_eq]
    rcases mul_neg_iff.mp h with ⟨h₁, h₂⟩ | ⟨h₁, h₂⟩
    · have hx := ha.pos_iff.mp h₁
      have hy := hb.neg_iff.mp h₂
      exact iff_of_false (by linarith) (by linarith)
    · have hx := ha.neg_iff.mp h₁
      have hy := hb.pos_iff.mp h₂
      exact iff_of_true (by linarith) (by linarith)
  rename_i hsign
  split
  · rename_i h
    have hx := ha.pos_iff.mp h
    have hy : 0 < y := by
      refine lt_of_le_of_ne (le_of_not_gt fun hneg => hsign ?_) (Ne.symm hyb)
      exact mul_neg_of_pos_of_neg h (hb.neg_iff.mpr hneg)
    rw [decide_eq_true_eq, ha.exp_lt_iff hb hx hy he]
  · rename_i h
    have hx : x < 0 := lt_of_le_of_ne (le_of_not_gt fun hpos => h (ha.pos_iff.mpr hpos)) hxa
    have hy : y < 0 := by
      refine lt_of_le_of_ne (le_of_not_gt fun hpos => hsign ?_) hyb
      exact mul_neg_of_neg_of_pos (ha.neg_iff.mpr hx) (hb.pos_iff.mpr hpos)
    -- the negatives are compared the other way round
    have hna : Exact ⟨a.exp, -a.fraction⟩ (-x) := ⟨ha.normal.neg, by rw [← ha.value, toDouble, toDouble]; ring⟩
    have hnb : Exact ⟨b.exp, -b.fraction⟩ (-y) := ⟨hb.normal.neg, by rw [← hb.value, toDouble, toDouble]; ring⟩
    have hiff := hnb.exp_lt_iff hna (by linarith) (by linarith) (Ne.symm he)
    rw [decide_eq_true_eq, hiff, neg_lt_neg_iff]

theorem Exact.beq_iff (ha : Exact a x) (hb : Exact b y) : a.beq b = true ↔ x = y := by
  rw [beq, Bool.and_eq_true, beq_iff_eq, beq_iff_eq]
  constructor
  · intro hex
    obtain ⟨he, hf⟩ := hex
    rw [← ha.value, ← hb.value, toDouble, toDouble, he, hf]
  · intro hxy
    exact ha.normal.unique hb.normal (ha.value.trans (hxy.trans hb.value.symm))

/-- **Big floats are normal and exact, and are ordered by value.** -/
theorem ordered {a b : BigFloat} {x y : ℚ} (ha : Computes a x) (hb : Computes b y) :
    ((a.fraction = 0 ∧ a.exp = 0) ∨ (1 / 2 ≤ |a.fraction| ∧ |a.fraction| < 1)) ∧ a.toDouble = x ∧
      (a.lt b = true ↔ x < y) ∧ (a.beq b = true ↔ x = y) ∧
      ((a.lt b = true ∧ a.beq b = false ∧ b.lt a = false) ∨ (a.lt b = false ∧ a.beq b = true ∧ b.lt a = false) ∨
        (a.lt b = false ∧ a.beq b = false ∧ b.lt a = true)) := by
  have hlt := ha.exact.lt_iff hb.exact
  have hgt := hb.exact.lt_iff ha.exact
  have heq := ha.exact.beq_iff hb.exact
  refine ⟨ha.exact.normal, ha.exact.value, hlt, heq, ?_⟩
  simp only [← Bool.not_eq_true, hlt, hgt, heq]
  rcases lt_trichotomy x y with h | h | h
  · exact .inl ⟨h, h.ne, h.not_gt⟩
  · exact .inr (.inl ⟨h.not_lt, h, h.not_gt⟩)
  · exact .inr (.inr ⟨h.not_gt, h.ne', h⟩)

/-- 3/4 and the difference of 1 and 1/4. -/
theorem ordered_quarters : (ofFloat (3 / 4)).beq ((ofFloat 1).sub (ofFloat (1 / 4))) = true :=
  (ordered (.ofFloat (3 / 4)) (.sub (.ofFloat 1) (.ofFloat (1 / 4)))).2.2.2.1.mpr (by norm_num)

end BigFloat

end Skywing.L4
