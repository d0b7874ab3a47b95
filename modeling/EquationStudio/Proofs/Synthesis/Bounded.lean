import EquationStudio.Proofs.Numeric.Finite
import EquationStudio.Proofs.Synthesis.Laws

/-!
# Powers and values of rationals

How many digits a power of rationals has is found as a double, and compared with the bound. The
double that is found is as near to the digits as fifty bits allow, so a power with fewer digits than
the bound is taken (`SymbolicAlgebra.boundedPower_rational`) and one with more is refused
(`SymbolicAlgebra.boundedPower_refused`), but for the digits next to the bound. The value of a
rational is the double that it is converted to (`SymbolicAlgebra.value_rational`).
-/

namespace EquationStudio

/-! ## Doubles beside the bound -/

namespace FiniteDouble

/-- The magnitude of a double measures the steps of its code. -/
theorem abs_toRat (x : FiniteDouble) : |x.toRat| = codeSteps x.code / 2 ^ stepBits := by
  have hunit : (0 : ℚ) < 2 ^ stepBits := pow_pos two_pos stepBits
  rw [toRat, Nat.pow_eq, Rat.mkRat_eq_div, abs_div, Nat.cast_pow, Nat.cast_ofNat, abs_of_pos hunit,
    ← Int.cast_abs, Int.abs_eq_natAbs, natAbs_steps, Int.cast_natCast]

/-- There is a double of any magnitude of a double on the side of a rational. -/
theorem exists_beside (y : FiniteDouble) (d : ℚ) :
    ∃ z : FiniteDouble, |z.toRat - d| = |(|y.toRat| - |d|)| := by
  have hsigned : ∀ negative : Bool, (⟨negative, y.code⟩ : FiniteDouble).toRat =
      if negative then -|y.toRat| else |y.toRat| := by
    intro negative
    rw [abs_toRat, toRat, Nat.pow_eq, Rat.mkRat_eq_div, Nat.cast_pow, Nat.cast_ofNat, steps]
    generalize (2 : ℚ) ^ stepBits = unit
    cases negative
    · rfl
    · rw [if_pos rfl, if_pos rfl, Int.cast_neg, Int.cast_natCast, neg_div]
  obtain hd | hd := le_total 0 d
  · refine ⟨⟨false, y.code⟩, ?_⟩
    rw [hsigned, if_neg Bool.false_ne_true, abs_of_nonneg hd]
  · refine ⟨⟨true, y.code⟩, ?_⟩
    rw [hsigned, if_pos rfl, abs_of_nonpos hd, ← abs_neg]
    congr 1
    ring

namespace IsNearest

variable {x y : FiniteDouble} {d : ℚ}

/-- What is rounded to no more than a double is no greater than that. -/
theorem abs_le (hx : x.IsNearest d) (h : |d| ≤ |y.toRat|) : |x.toRat| ≤ |y.toRat| := by
  obtain ⟨z, hz⟩ := y.exists_beside d
  have hnear := hx.nearest z
  rw [hz, abs_of_nonneg (sub_nonneg.2 h)] at hnear
  have htriangle := abs_sub_abs_le_abs_sub x.toRat d
  linarith

/-- What is rounded to no less than a double is no less than that. -/
theorem le_abs (hx : x.IsNearest d) (h : |y.toRat| ≤ |d|) : |y.toRat| ≤ |x.toRat| := by
  obtain ⟨z, hz⟩ := y.exists_beside d
  have hnear := hx.nearest z
  rw [hz, abs_of_nonpos (sub_nonpos.2 h)] at hnear
  have htriangle := abs_sub_abs_le_abs_sub d x.toRat
  rw [abs_sub_comm d] at htriangle
  linarith

end IsNearest

end FiniteDouble

namespace Double

/-- The magnitude of a finite double is compared with a natural. -/
theorem exceeds_finite {n : Nat} {x : FiniteDouble} :
    (magnitude (.finite x)).exceeds n = true ↔ (n : ℚ) < |x.toRat| := by
  have hunit : (0 : ℚ) < 2 ^ stepBits := pow_pos two_pos stepBits
  have hsteps : (⟨false, x.code⟩ : FiniteDouble).steps = (codeSteps x.code : Int) :=
    if_neg Bool.false_ne_true
  rw [x.abs_toRat, lt_div_iff₀ hunit, magnitude, exceeds, hsteps, decide_eq_true_eq, Nat.pow_eq,
    Int.ofNat_lt, ← Nat.cast_lt (α := ℚ), Nat.cast_mul, Nat.cast_pow, Nat.cast_ofNat]

/-- The bound for the digits of a power, as a double. -/
def digitsBound : FiniteDouble := ⟨false, ⟨4666723172467343360, by decide⟩⟩

/-- The double behind the bound. -/
def digitsBeyond : FiniteDouble := ⟨false, ⟨4666723172467343361, by decide⟩⟩

theorem toRat_digitsBound : |digitsBound.toRat| = powerDigits := by
  decide +kernel

theorem toRat_digitsBeyond : |digitsBeyond.toRat| = powerDigits + (2 ^ 39)⁻¹ := by
  decide +kernel

/-- Digits within the bound are not beyond it when they are rounded. -/
theorem exceeds_ofRat_of_le {d : ℚ} (h : |d| ≤ powerDigits) :
    (ofRat d).magnitude.exceeds powerDigits = false := by
  obtain ⟨x, hx, -, hnearest⟩ | ⟨-, hbeyond⟩ := ofRat_eq d
  · rw [← toRat_digitsBound] at h
    rw [hx, ← Bool.not_eq_true, exceeds_finite, not_lt, ← toRat_digitsBound]
    exact hnearest.abs_le h
  · have hsmall : (powerDigits : ℚ) < overflow := by decide +kernel
    exact absurd (hbeyond.trans h) hsmall.not_ge

/-- Digits that are no less than the double behind the bound are beyond it. -/
theorem exceeds_ofRat {d : ℚ} (h : powerDigits + (2 ^ 39)⁻¹ ≤ |d|) :
    (ofRat d).magnitude.exceeds powerDigits = true := by
  obtain ⟨x, hx, -, hnearest⟩ | ⟨hx, -⟩ := ofRat_eq d
  · rw [← toRat_digitsBeyond] at h
    have hle := hnearest.le_abs h
    rw [toRat_digitsBeyond] at hle
    rw [hx, exceeds_finite]
    exact lt_of_lt_of_le (by norm_num) hle
  · rw [hx]
    rfl

end Double

/-! ## Powers of rationals -/

namespace SymbolicAlgebra

variable {A : SymbolicAlgebra} {q r : ℚ}

/-- A power of rationals is taken if what is found for its digits is within the bound. -/
theorem tooManyDigits?_rational (hA : A.Exact) (hq : q ≠ 0) {x : Double}
    (hx : A.powerDigits? (A.rational q) (A.rational r) = some x) :
    A.tooManyDigits? (A.rational q) (A.rational r) =
      if x.magnitude.exceeds powerDigits then some x.magnitude else none := by
  have hzero : A.isZero (A.rational q) = false := by
    rw [Bool.eq_false_iff, ne_eq, hA.isZero]
    exact fun h => hq (hA.injective h)
  rw [tooManyDigits?, hA.isNumber, hA.isNumber, hzero, hx]
  rfl

/-- Zero has powers of any size. -/
theorem tooManyDigits?_zero (hA : A.Exact) (e : A.Form) :
    A.tooManyDigits? (A.rational 0) e = none := by
  rw [tooManyDigits?, (hA.isZero _).2 rfl, Bool.not_true, Bool.and_false,
    if_neg Bool.false_ne_true]

section
variable (hA : A.Exact) (hC : A.Converts)
include hA hC

/-- A power of rationals with fewer digits than the bound is taken. -/
theorem boundedPower_rational (h : q ≠ 0 → |(r : ℝ) * Real.logb 10 (|(q : ℝ)|)| ≤ 9999) :
    A.boundedPower (A.rational q) (A.rational r) = .ok (A.pow (A.rational q) (A.rational r)) := by
  have hnone : A.tooManyDigits? (A.rational q) (A.rational r) = none := by
    by_cases hq : q = 0
    · rw [hq, tooManyDigits?_zero hA]
    · obtain ⟨d, hd, hnear⟩ := hC.powerDigits q r hq
      have hdigits : |d| ≤ powerDigits := by
        have hle := h hq
        have htriangle := abs_sub_abs_le_abs_sub (d : ℝ) (r * Real.logb 10 (|(q : ℝ)|))
        have hreal : |(d : ℝ)| ≤ powerDigits := by
          rw [Nat.cast_ofNat]
          linarith
        exact_mod_cast hreal
      rw [tooManyDigits?_rational hA hq hd, Double.exceeds_ofRat_of_le hdigits,
        if_neg Bool.false_ne_true]
  rw [boundedPower, hnone]

/-- A power of rationals with more digits than the bound is refused. -/
theorem boundedPower_refused (hq : q ≠ 0)
    (h : powerDigits + (2 ^ 36)⁻¹ < |(r : ℝ) * Real.logb 10 (|(q : ℝ)|)|) :
    ∃ digits, A.boundedPower (A.rational q) (A.rational r) =
      .error (.refusal (.powerTooLarge digits)) := by
  obtain ⟨d, hd, hnear⟩ := hC.powerDigits q r hq
  have hdigits : powerDigits + (2 ^ 39)⁻¹ ≤ |d| := by
    have htriangle := abs_sub_abs_le_abs_sub (r * Real.logb 10 (|(q : ℝ)|)) (d : ℝ)
    rw [abs_sub_comm] at htriangle
    rw [← Rat.cast_le (K := ℝ), Rat.cast_abs]
    push_cast
    rw [Nat.cast_ofNat] at h
    linarith
  rw [boundedPower, tooManyDigits?_rational hA hq hd, Double.exceeds_ofRat hdigits, if_pos rfl]
  exact ⟨_, rfl⟩

/-- A power of rationals that is refused has more digits than the bound, or as many. -/
theorem lt_of_tooManyDigits? (h : A.tooManyDigits? (A.rational q) (A.rational r) ≠ none) :
    q ≠ 0 ∧ powerDigits - (2 ^ 36)⁻¹ < |(r : ℝ) * Real.logb 10 (|(q : ℝ)|)| := by
  have hq : q ≠ 0 := by
    rintro rfl
    exact h (tooManyDigits?_zero hA _)
  refine ⟨hq, ?_⟩
  obtain ⟨d, hd, hnear⟩ := hC.powerDigits q r hq
  rw [tooManyDigits?_rational hA hq hd] at h
  have hdigits : (powerDigits : ℚ) < |d| := by
    by_contra hle
    rw [Double.exceeds_ofRat_of_le (not_lt.1 hle)] at h
    exact h (if_neg Bool.false_ne_true)
  have hreal : (powerDigits : ℝ) < |(d : ℝ)| := by exact_mod_cast hdigits
  have htriangle := abs_sub_abs_le_abs_sub (d : ℝ) (r * Real.logb 10 (|(q : ℝ)|))
  rw [Nat.cast_ofNat] at hreal ⊢
  linarith

/-- The value of a rational. -/
theorem value_rational (q : ℚ) : A.value (A.rational q) = .ok (.ofRatTwice q) := by
  unfold value
  rw [hA.names, List.mergeSort_nil, hA.isSingular, hA.isFinite, hA.isReal, hC.toDouble]
  rfl

end

end SymbolicAlgebra

end EquationStudio
