import EquationStudio.Proofs.Numeric.Code
import EquationStudio.Proofs.Numeric.Finite
import Mathlib.Tactic.FieldSimp
import Mathlib.Tactic.Linarith

/-!
# Significant digits

What is kept of a rational after a number of significant binary digits is near to it
(`roundedTo_near`, `cutTo_near`). Fifty-three digits are all that a double of the normal range has,
so rounding a rational to as many first changes nothing there (`Double.ofRatTwice_eq`), and whatever
the size of the rational, it is still an infinity exactly if it is out of range
(`Double.ofRatTwice_infinite_iff`).
-/

namespace EquationStudio

/-! ## Sizes of quotients -/

/-- The leading bit of a quotient that has one. -/
theorem log2_div_eq_iff {num den k : Nat} (hden : 0 < den) (h : den ≤ num) :
    (num / den).log2 = k ↔ 2 ^ k * den ≤ num ∧ num < 2 ^ (k + 1) * den := by
  rw [Nat.log2_eq_iff (Nat.div_pos h hden).ne', Nat.le_div_iff_mul_le hden,
    Nat.div_lt_iff_lt_mul hden]

/-- A quotient that is doubled has one bit more. -/
theorem log2_div_shift {num den : Nat} (hden : 0 < den) (h : den ≤ num) (j : Nat) :
    (num * 2 ^ j / den).log2 = (num / den).log2 + j := by
  have hle : den ≤ num * 2 ^ j := h.trans (Nat.le_mul_of_pos_right _ (Nat.two_pow_pos j))
  obtain ⟨hlow, hhigh⟩ := (log2_div_eq_iff hden h).1 rfl
  rw [log2_div_eq_iff hden hle]
  generalize (num / den).log2 = k at hlow hhigh ⊢
  refine ⟨?_, ?_⟩
  · rw [Nat.pow_add, Nat.mul_right_comm]
    exact Nat.mul_le_mul_right _ hlow
  · rw [show k + j + 1 = k + 1 + j by omega, Nat.pow_add, Nat.mul_right_comm]
    exact Nat.mul_lt_mul_of_pos_right hhigh (Nat.two_pow_pos j)

/-- A rational other than zero is raised to a quotient of enough bits. -/
theorem two_pow_mul_den_le {q : ℚ} (hq : q ≠ 0) {bits : Nat} (hbits : 0 < bits) :
    2 ^ (bits - 1) * q.den ≤ q.num.natAbs * 2 ^ (bits + q.den.log2) := by
  have hden : q.den ≤ 2 ^ (q.den.log2 + 1) := Nat.lt_log2_self.le
  have hpower : 2 ^ (bits - 1) * 2 ^ (q.den.log2 + 1) = 2 ^ (bits + q.den.log2) := by
    rw [← Nat.pow_add]
    congr 1
    omega
  calc 2 ^ (bits - 1) * q.den ≤ 2 ^ (bits - 1) * 2 ^ (q.den.log2 + 1) := Nat.mul_le_mul_left _ hden
    _ = 2 ^ (bits + q.den.log2) := hpower
    _ ≤ q.num.natAbs * 2 ^ (bits + q.den.log2) :=
      Nat.le_mul_of_pos_left _ (Int.natAbs_pos.2 (Rat.num_ne_zero.2 hq))

/-! ## Digits that are kept -/

/-- A quotient that is made a natural is off by less than one. -/
def RoundsQuotients (round : Nat → Nat → Nat) : Prop :=
  ∀ num den : Nat, 0 < den → |(round num den * den : Int) - num| < den

/-- The nearest natural is. -/
theorem roundsQuotients_roundQuotient : RoundsQuotients roundQuotient := fun num den hden => by
  have herror := (roundQuotient_error num hden).1
  omega

/-- So is the natural below. -/
theorem roundsQuotients_div : RoundsQuotients (· / ·) := fun num den hden => by
  have hnum : num / den * den + num % den = num := Nat.div_add_mod' num den
  have hrem := Nat.mod_lt num hden
  have hcast : ((num / den : Nat) : Int) * den = (num / den * den : Nat) := by push_cast; rfl
  dsimp only
  rw [hcast, abs_of_nonpos (by omega)]
  omega

/-- Of zero nothing is kept. -/
theorem significant_zero {round : Nat → Nat → Nat} (hround : RoundsQuotients round) (bits : Nat) :
    significant round bits 0 = 0 := by
  have hzero : ∀ den, 0 < den → round 0 den = 0 := fun den hden => by
    have h := hround 0 den hden
    rw [Nat.cast_zero, sub_zero, abs_of_nonneg (by positivity)] at h
    by_contra hne
    have hle : (den : Int) ≤ round 0 den * den := by
      exact_mod_cast Nat.le_mul_of_pos_left den (Nat.pos_of_ne_zero hne)
    omega
  unfold significant
  simp only [Rat.num_zero, Int.natAbs_zero, Nat.zero_mul, Rat.den_zero, Nat.one_mul]
  rw [Nat.pow_eq, hzero _ (Nat.two_pow_pos _), Nat.zero_mul, Nat.cast_zero, Rat.zero_mkRat]

/-- Zero has no digits. -/
theorem roundedTo_zero (bits : Nat) : roundedTo bits 0 = 0 := by
  rw [roundedTo, if_neg (lt_irrefl _), significant_zero roundsQuotients_roundQuotient]

/-- What is kept of the magnitude of a rational is near to it. -/
theorem significant_near {round : Nat → Nat → Nat} (hround : RoundsQuotients round) {bits : Nat}
    (hbits : 0 < bits) (q : ℚ) : |significant round bits q - (|q|)| ≤ |q| / 2 ^ (bits - 1) := by
  by_cases hq : q = 0
  · rw [hq, significant_zero hround]
    simp
  have hraised := two_pow_mul_den_le hq hbits
  have hden : 0 < q.den := q.den_pos
  have hnum : |q| * q.den = q.num.natAbs := by
    rw [← abs_of_nonneg (Nat.cast_nonneg (α := ℚ) q.den), ← abs_mul,
      Rat.mul_den_eq_num, Nat.cast_natAbs, Int.cast_abs]
  unfold significant
  dsimp only
  rw [Nat.pow_eq, Nat.pow_eq]
  generalize bits + q.den.log2 = raised at hraised ⊢
  generalize q.num.natAbs = n at hraised hnum ⊢
  have hscaled : q.den ≤ n * 2 ^ raised :=
    (Nat.le_mul_of_pos_left _ (Nat.two_pow_pos _)).trans hraised
  obtain ⟨hlow, -⟩ := (log2_div_eq_iff hden hscaled).1 rfl
  have hlog : bits - 1 ≤ (n * 2 ^ raised / q.den).log2 := by
    rw [Nat.le_log2 (Nat.div_pos hscaled hden).ne', Nat.le_div_iff_mul_le hden]
    exact hraised
  generalize (n * 2 ^ raised / q.den).log2 = size at hlow hlog ⊢
  obtain ⟨shift, rfl⟩ : ∃ shift, size = bits - 1 + shift := ⟨size - (bits - 1), by omega⟩
  rw [show bits - 1 + shift + 1 - bits = shift by omega]
  have herror := hround (n * 2 ^ raised) (q.den * 2 ^ shift)
    (Nat.mul_pos hden (Nat.two_pow_pos shift))
  generalize round (n * 2 ^ raised) (q.den * 2 ^ shift) = m at herror ⊢
  have hunit : (0 : ℚ) < q.den * 2 ^ raised := by positivity
  have hkept : (mkRat (m * 2 ^ shift : Nat) (2 ^ raised) - (|q|)) * (q.den * 2 ^ raised) =
      (m * (q.den * 2 ^ shift : Nat) - (n * 2 ^ raised : Nat) : Int) := by
    rw [Rat.mkRat_eq_div]
    push_cast
    rw [sub_mul, show |q| * (q.den * 2 ^ raised) = |q| * q.den * 2 ^ raised by ring, hnum]
    field_simp
  rw [← mul_le_mul_iff_left₀ hunit, ← abs_of_pos hunit, ← abs_mul, abs_of_pos hunit,
    hkept, ← Int.cast_abs, div_mul_eq_mul_div, le_div_iff₀ (by positivity)]
  have hless : ((|(m * (q.den * 2 ^ shift : Nat) - (n * 2 ^ raised : Nat) : Int)| : Int) : ℚ) ≤
      q.den * 2 ^ shift := by exact_mod_cast herror.le
  have hsize : (2 ^ (bits - 1 + shift) * q.den : ℚ) ≤ |q| * (q.den * 2 ^ raised) := by
    rw [← mul_assoc, hnum]
    exact_mod_cast hlow
  refine (mul_le_mul_of_nonneg_right hless (by positivity)).trans (le_trans (le_of_eq ?_) hsize)
  rw [pow_add]
  ring

section
variable {bits : Nat} (hbits : 0 < bits) (q : ℚ)
include hbits

/-- A rational that is rounded is near. -/
theorem roundedTo_near : |roundedTo bits q - q| ≤ |q| / 2 ^ (bits - 1) := by
  have hnear := significant_near roundsQuotients_roundQuotient hbits q
  unfold roundedTo
  split
  · next hneg =>
    rw [abs_of_neg hneg] at hnear ⊢
    rwa [← abs_neg, neg_sub, sub_neg_eq_add, add_comm, ← sub_neg_eq_add]
  · next hnonneg => rwa [abs_of_nonneg (not_lt.1 hnonneg)] at hnear ⊢

/-- A rational that is cut off is near. -/
theorem cutTo_near : |cutTo bits q - q| ≤ |q| / 2 ^ (bits - 1) := by
  have hnear := significant_near roundsQuotients_div hbits q
  unfold cutTo
  split
  · next hneg =>
    rw [abs_of_neg hneg] at hnear ⊢
    rwa [← abs_neg, neg_sub, sub_neg_eq_add, add_comm, ← sub_neg_eq_add]
  · next hnonneg => rwa [abs_of_nonneg (not_lt.1 hnonneg)] at hnear ⊢

end

/-! ## Doubles -/

/-- A quotient rounded to fifty-three digits, once it has as many before the point. -/
def roundedQuotient (num den : Nat) : Nat :=
  let shift := (num / den).log2 - 52
  roundQuotient num (den * 2 ^ shift) * 2 ^ shift

/-- If the quotient is doubled, so is what it is rounded to. -/
theorem roundedQuotient_shift {num den : Nat} (hden : 0 < den) (h : 2 ^ 52 * den ≤ num) (j : Nat) :
    roundedQuotient (num * 2 ^ j) den = roundedQuotient num den * 2 ^ j := by
  have hle : den ≤ num := (Nat.le_mul_of_pos_left _ (Nat.two_pow_pos 52)).trans h
  have hlog : 52 ≤ (num / den).log2 := by
    rwa [Nat.le_log2 (Nat.div_pos hle hden).ne', Nat.le_div_iff_mul_le hden]
  have hunit : ∀ unit, den * (unit * 2 ^ j) = 2 ^ j * (den * unit) := fun unit => by ring
  unfold roundedQuotient
  dsimp only
  rw [log2_div_shift hden hle, Nat.sub_add_comm hlog, Nat.pow_add, hunit, Nat.mul_comm num,
    roundQuotient_mul_left (Nat.two_pow_pos j), Nat.mul_assoc]

/-- By whatever powers of two it is raised, a quotient is rounded to the same. -/
theorem roundedQuotient_congr {num den r s : Nat} (hden : 0 < den) (hr : 2 ^ 52 * den ≤ num * 2 ^ r)
    (hs : 2 ^ 52 * den ≤ num * 2 ^ s) :
    roundedQuotient (num * 2 ^ r) den * 2 ^ s = roundedQuotient (num * 2 ^ s) den * 2 ^ r := by
  obtain ⟨j, rfl⟩ | ⟨j, rfl⟩ := (le_total r s).imp Nat.exists_eq_add_of_le Nat.exists_eq_add_of_le
  · rw [Nat.pow_add, ← Nat.mul_assoc num, roundedQuotient_shift hden hr]
    ring
  · rw [Nat.pow_add, ← Nat.mul_assoc num, roundedQuotient_shift hden hs]
    ring

/-- The magnitude of a rational of the normal range, with fifty-three digits, is that of its
double. -/
theorem significant_mul {q : ℚ} (h : 2 ^ 52 * q.den ≤ q.num.natAbs * 2 ^ stepBits) :
    significant roundQuotient 53 q * 2 ^ stepBits = codeSteps (codeOfRatio q.num.natAbs q.den) := by
  have hpos : 0 < q.num.natAbs * 2 ^ stepBits := (Nat.mul_pos (by decide) q.den_pos).trans_le h
  have hq : q ≠ 0 := Rat.num_ne_zero.1 (Int.natAbs_ne_zero.1 (left_ne_zero_of_mul hpos.ne'))
  have hsteps : codeSteps (codeOfRatio q.num.natAbs q.den) =
      roundedQuotient (q.num.natAbs * 2 ^ stepBits) q.den := by
    unfold codeOfRatio roundedQuotient
    simp only [Nat.pow_eq]
    generalize q.num.natAbs * 2 ^ stepBits = scaled
    obtain ⟨hlow, hhigh⟩ := roundQuotient_size scaled q.den
    exact codeSteps_grid (hlow.imp And.right id) hhigh
  have hkept : significant roundQuotient 53 q =
      (roundedQuotient (q.num.natAbs * 2 ^ (53 + q.den.log2)) q.den : ℚ) /
      2 ^ (53 + q.den.log2) := by
    rw [show (2 : ℚ) ^ (53 + q.den.log2) = (2 ^ (53 + q.den.log2) : Nat) by push_cast; rfl,
      ← Int.cast_natCast, ← Rat.mkRat_eq_div]
    rfl
  have hcongr := roundedQuotient_congr q.den_pos (two_pow_mul_den_le hq (show 0 < 53 by decide)) h
  rw [hsteps, hkept, div_mul_eq_mul_div, div_eq_iff (by positivity)]
  generalize stepBits = unit at hcongr ⊢
  exact_mod_cast hcongr

namespace Double

/-- Rationals of one sign, one of which measures the magnitude of the other's code, have the same
double. -/
theorem ofRat_congr {p q : ℚ} (hsign : p < 0 ↔ q < 0)
    (h : |p| * 2 ^ stepBits = codeSteps (codeOfRatio q.num.natAbs q.den)) : ofRat p = ofRat q := by
  have hden : (0 : ℚ) < p.den := by exact_mod_cast p.den_pos
  have hnum : |p| * p.den = p.num.natAbs := by
    rw [← abs_of_pos hden, ← abs_mul, Rat.mul_den_eq_num, Nat.cast_natAbs, Int.cast_abs]
  have hcode : codeOfRatio p.num.natAbs p.den = codeOfRatio q.num.natAbs q.den := by
    refine codeOfRatio_codeSteps p.den_pos ?_
    generalize codeSteps (codeOfRatio q.num.natAbs q.den) = steps at h
    generalize stepBits = bits at h ⊢
    have hmul : (p.num.natAbs * 2 ^ bits : ℚ) = steps * p.den := by
      rw [← hnum, ← h]
      ring
    exact_mod_cast hmul
  have hnegative : (p.num < 0) = (q.num < 0) := by
    rw [Rat.num_neg, Rat.num_neg]
    exact propext hsign
  rw [ofRat, ofRat, hcode]
  simp only [hnegative]

/-- A rational of the normal range is rounded to the same by way of fifty-three digits. -/
theorem ofRatTwice_eq {q : ℚ} (h : (2 : ℚ) ^ (-1022 : ℤ) ≤ |q|) : ofRatTwice q = ofRat q := by
  have hpos : 0 < |q| := (zpow_pos two_pos _).trans_le h
  have hden : (0 : ℚ) < q.den := by exact_mod_cast q.den_pos
  have hnum : |q| * q.den = q.num.natAbs := by
    rw [← abs_of_pos hden, ← abs_mul, Rat.mul_den_eq_num, Nat.cast_natAbs, Int.cast_abs]
  have hnormal : 2 ^ 52 * q.den ≤ q.num.natAbs * 2 ^ stepBits := by
    have hpower : (2 : ℚ) ^ 52 = 2 ^ (-1022 : ℤ) * 2 ^ stepBits := by
      rw [← zpow_natCast, ← zpow_natCast, ← zpow_add₀ two_ne_zero]
      rfl
    generalize stepBits = bits at hpower ⊢
    have hle : (2 : ℚ) ^ 52 * q.den ≤ q.num.natAbs * 2 ^ bits := by
      rw [← hnum, hpower, mul_right_comm (|q|)]
      gcongr
    exact_mod_cast hle
  have hnear := abs_le.1 (significant_near roundsQuotients_roundQuotient (show 0 < 53 by decide) q)
  have hkept : 0 < significant roundQuotient 53 q := by
    have hpart : |q| / 2 ^ (53 - 1) < |q| := div_lt_self hpos (by norm_num)
    linarith [hnear.1]
  have hrounded : |roundedTo 53 q| = significant roundQuotient 53 q ∧
      (roundedTo 53 q < 0 ↔ q < 0) := by
    unfold roundedTo
    split
    · next hneg => exact ⟨by rw [abs_neg, abs_of_pos hkept], iff_of_true (neg_lt_zero.2 hkept) hneg⟩
    · next hnonneg => exact ⟨abs_of_pos hkept, iff_of_false hkept.not_gt hnonneg⟩
  exact ofRat_congr hrounded.2 (hrounded.1 ▸ significant_mul hnormal)

/-- A rational is rounded to an infinity, by way of fifty-three digits too, exactly if it is out of
range. -/
theorem ofRatTwice_infinite_iff (q : ℚ) :
    (∃ negative, ofRatTwice q = .infinite negative) ↔ overflow ≤ |q| := by
  by_cases h : (2 : ℚ) ^ (-1022 : ℤ) ≤ |q|
  · rw [ofRatTwice_eq h, (roundsTo_ofRat q).infinite_iff]
    exact_mod_cast Iff.rfl
  · have hsmall : |q| < 1 := (not_le.1 h).trans_le (zpow_le_one_of_nonpos₀ one_le_two (by decide))
    have hnear := roundedTo_near (show 0 < 53 by decide) q
    have hone : (2 : ℚ) < overflow := by decide +kernel
    have hkept : |roundedTo 53 q| < overflow := by
      have hsub := abs_sub_abs_le_abs_sub (roundedTo 53 q) q
      have hpart : |q| / 2 ^ (53 - 1) ≤ |q| := div_le_self (abs_nonneg q) (by norm_num)
      linarith
    rw [ofRatTwice, (roundsTo_ofRat _).infinite_iff]
    exact iff_of_false (not_le.2 (by exact_mod_cast hkept))
      (hsmall.trans (one_lt_two.trans hone)).not_ge

end Double

end EquationStudio
