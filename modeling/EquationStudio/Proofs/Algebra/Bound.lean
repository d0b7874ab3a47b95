import EquationStudio.Algebra.Bound
import Mathlib.Analysis.SpecialFunctions.Log.Base
import Mathlib.Data.Rat.Cast.Order

/-!
# Truncated numbers

The powers off which logarithms are read are made with truncated mantissas, each at or below the
number that it stands for (`Truncated.Below`). Truncation, products and powers by squaring stay
below. The size of a truncated number is its binary logarithm, rounded down.
-/

namespace EquationStudio

namespace Truncated

/-- The number that a mantissa and an exponent stand for. -/
def value (x : Truncated) : ℚ := x.mantissa * 2 ^ x.exponent

/-- A truncated number that is positive and not above another number. -/
structure Below (x : Truncated) (r : ℚ) : Prop where
  pos : 0 < x.mantissa
  le : x.value ≤ r

variable {x y : Truncated} {r s : ℚ}

/-- The value of a truncated number is not negative. -/
theorem value_nonneg (x : Truncated) : 0 ≤ x.value := by
  unfold value
  positivity

/-- The leading bit of a positive truncated number. -/
theorem two_zpow_log2_le (hpos : 0 < x.mantissa) :
    (2 : ℚ) ^ (x.exponent + x.mantissa.log2) ≤ x.value := by
  have hlog : ((2 ^ x.mantissa.log2 : Nat) : ℚ) ≤ x.mantissa := by
    exact_mod_cast Nat.log2_self_le hpos.ne'
  rw [value, zpow_add₀ two_ne_zero, mul_comm, zpow_natCast]
  push_cast at hlog
  gcongr

/-- Truncation goes down, but not to zero. -/
theorem Below.truncate (h : x.Below r) (bits : Nat) : (x.truncate bits).Below r := by
  unfold Truncated.truncate
  dsimp only
  have hextra : 2 ^ (x.mantissa.log2 - bits) ≤ x.mantissa :=
    (Nat.pow_le_pow_right (by decide) (Nat.sub_le _ _)).trans (Nat.log2_self_le h.pos.ne')
  generalize x.mantissa.log2 - bits = extra at hextra ⊢
  refine ⟨Nat.div_pos hextra (Nat.two_pow_pos extra), le_trans ?_ h.le⟩
  have hdown : ((x.mantissa / 2 ^ extra : Nat) : ℚ) * 2 ^ extra ≤ x.mantissa := by
    exact_mod_cast Nat.div_mul_le_self x.mantissa (2 ^ extra)
  calc ((x.mantissa / 2 ^ extra : Nat) : ℚ) * 2 ^ (x.exponent + extra)
      = ((x.mantissa / 2 ^ extra : Nat) : ℚ) * 2 ^ extra * 2 ^ x.exponent := by
        rw [zpow_add₀ two_ne_zero, zpow_natCast]
        ring
    _ ≤ x.mantissa * 2 ^ x.exponent := by gcongr

/-- A product of truncated numbers is below the product. -/
theorem Below.mul (hx : x.Below r) (hy : y.Below s) (bits : Nat) :
    (Truncated.mul bits x y).Below (r * s) := by
  refine Below.truncate ⟨Nat.mul_pos hx.pos hy.pos, ?_⟩ bits
  have hvalue : value ⟨x.mantissa * y.mantissa, x.exponent + y.exponent⟩ = x.value * y.value := by
    simp only [value, Nat.cast_mul, zpow_add₀ (two_ne_zero : (2 : ℚ) ≠ 0)]
    ring
  rw [hvalue]
  exact mul_le_mul hx.le hy.le y.value_nonneg (x.value_nonneg.trans hx.le)

/-- A rational from one on has a truncated number below it. -/
theorem below_ofRat {q : ℚ} (hq : 1 ≤ q) (bits : Nat) : (ofRat bits q).Below q := by
  unfold ofRat
  dsimp only
  generalize bits + q.den.log2 + 1 = shift
  have hden : (0 : ℚ) < q.den := by exact_mod_cast q.den_pos
  have hnum : (q.num.natAbs : ℚ) = q * q.den := by
    rw [Rat.mul_den_eq_num, Nat.cast_natAbs,
      abs_of_nonneg (Rat.num_nonneg.2 (zero_le_one.trans hq))]
  refine Below.truncate ⟨Nat.div_pos ?_ q.den_pos, ?_⟩ bits
  · have hle : q.den ≤ q.num.natAbs := by
      have : (q.den : ℚ) ≤ q.num.natAbs := by
        rw [hnum]
        exact le_mul_of_one_le_left hden.le hq
      exact_mod_cast this
    exact hle.trans (Nat.le_mul_of_pos_right _ (Nat.two_pow_pos shift))
  · have hdown : ((q.num.natAbs * 2 ^ shift / q.den : Nat) : ℚ) ≤ q * 2 ^ shift := by
      refine Nat.cast_div_le.trans (le_of_eq ?_)
      push_cast
      rw [hnum]
      field_simp
    calc ((q.num.natAbs * 2 ^ shift / q.den : Nat) : ℚ) * 2 ^ (-(shift : ℤ))
        ≤ q * 2 ^ shift * 2 ^ (-(shift : ℤ)) := by gcongr
      _ = q := by rw [zpow_neg, zpow_natCast, mul_inv_cancel_right₀ (by positivity)]

/-- A power by squaring is below the power, if there is fuel for each bit of the exponent. -/
theorem Below.pow (h : x.Below r) (bits : Nat) :
    ∀ {fuel n : Nat}, n < 2 ^ fuel → (x.pow bits fuel n).Below (r ^ n) := by
  have hone : (⟨1, 0⟩ : Truncated).Below 1 := ⟨Nat.one_pos, by simp [value]⟩
  intro fuel
  induction fuel with
  | zero =>
    intro n hn
    obtain rfl : n = 0 := by omega
    rw [Truncated.pow, pow_zero]
    exact hone
  | succ fuel ih =>
    intro n hn
    rw [Truncated.pow]
    split
    · next hzero => rw [hzero, pow_zero]; exact hone
    · have hhalf := ih (n := n / 2) (by omega)
      have hsquare := hhalf.mul hhalf bits
      rw [← pow_add] at hsquare
      dsimp only
      split
      · next heven => rwa [show n / 2 + n / 2 = n by omega] at hsquare
      · next hodd =>
        have hnext := hsquare.mul h bits
        rwa [← pow_succ, show n / 2 + n / 2 + 1 = n by omega] at hnext

/-- The bit above the leading one of a truncated number. -/
theorem lt_two_zpow_log2 (x : Truncated) : x.value < 2 ^ (x.exponent + x.mantissa.log2 + 1) := by
  have hlog : (x.mantissa : ℚ) < (2 ^ (x.mantissa.log2 + 1) : Nat) := by
    exact_mod_cast Nat.lt_log2_self
  rw [value, add_assoc, zpow_add₀ two_ne_zero, mul_comm, ← Nat.cast_succ, zpow_natCast]
  push_cast at hlog
  gcongr

end Truncated

/-- The magnitude of a rational. -/
theorem magnitude_eq_abs (q : ℚ) : magnitude q = |q| := by
  unfold magnitude
  split
  · next hneg => rw [abs_of_neg hneg]
  · next hnonneg => rw [abs_of_nonneg (not_lt.1 hnonneg)]

/-- A rational other than zero, or its inverse, measures one at least, and the logarithm of that is
the logarithm of the rational but for its sign. -/
theorem magnitudeAboveOne_spec {q : ℚ} (hq : q ≠ 0) : 1 ≤ magnitudeAboveOne q ∧
    Real.logb 10 (|(q : ℝ)|) = if magnitude q < 1 then -Real.logb 10 (magnitudeAboveOne q)
      else Real.logb 10 (magnitudeAboveOne q) := by
  have hpos : 0 < |q| := abs_pos.2 hq
  rw [magnitudeAboveOne, magnitude_eq_abs, ← Rat.cast_abs]
  split
  · next hlt => exact ⟨(one_le_inv₀ hpos).2 hlt.le, by rw [Rat.cast_inv, Real.logb_inv, neg_neg]⟩
  · next hge => exact ⟨not_lt.1 hge, rfl⟩

end EquationStudio
