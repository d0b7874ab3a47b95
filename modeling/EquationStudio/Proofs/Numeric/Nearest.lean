import EquationStudio.Proofs.Number
import Mathlib.Algebra.Order.Ring.Abs
import Mathlib.Algebra.Order.Ring.Rat
import Mathlib.Data.Rat.Cast.Order
import Mathlib.Order.Monotone.Basic
import Mathlib.Tactic.LinearCombination
import Mathlib.Tactic.Ring

/-!
# Rounding to the nearest double

`FiniteDouble.IsNearest` says what it is to be the double nearest to a rational, with the tie going
to the even code, and `Double.ofRat` gives that double as long as the rational is not beyond the
largest one (`Double.exists_isNearest`).

Codes are compared by the magnitudes that they measure. Rounding looks only at multiples of one
unit, which is the step between the magnitudes of the size of the quotient. The codes below measure
magnitudes that are no such multiples, but those lie beyond the least magnitude of that size, which
is one.
-/

namespace EquationStudio

/-! ## Magnitudes -/

/-- Codes of subnormal magnitudes measure themselves. -/
theorem codeSteps_of_lt {c : Nat} (h : c < 2 ^ 52) : codeSteps c = c := if_pos h

/-- The magnitudes of one exponent are as far apart as it says. -/
theorem codeSteps_normal (k : Nat) {m : Nat} (hm : m < 2 ^ 52) :
    codeSteps ((k + 1) * 2 ^ 52 + m) = (2 ^ 52 + m) * 2 ^ k := by
  have hdiv : ((k + 1) * 2 ^ 52 + m) / 2 ^ 52 - 1 = k := by omega
  have hmod : ((k + 1) * 2 ^ 52 + m) % 2 ^ 52 = m := by omega
  unfold codeSteps
  simp only [Nat.pow_eq, hdiv, hmod]
  rw [if_neg (by omega)]

/-- Every code is that of a subnormal magnitude, or has an exponent. -/
theorem code_cases (c : Nat) : c < 2 ^ 52 ∨ ∃ k m, m < 2 ^ 52 ∧ c = (k + 1) * 2 ^ 52 + m := by
  rcases Nat.lt_or_ge c (2 ^ 52) with h | h
  · exact .inl h
  · exact .inr ⟨c / 2 ^ 52 - 1, c % 2 ^ 52, Nat.mod_lt _ (by decide), by omega⟩

/-- Codes order the magnitudes. -/
theorem strictMono_codeSteps : StrictMono codeSteps := by
  refine strictMono_nat_of_lt_succ fun c => ?_
  obtain h | ⟨k, m, hm, rfl⟩ := code_cases c
  · rw [codeSteps_of_lt h]
    rcases Nat.lt_or_ge (c + 1) (2 ^ 52) with hlt | hge
    · rw [codeSteps_of_lt hlt]
      exact Nat.lt_succ_self c
    · have hnext : c + 1 = (0 + 1) * 2 ^ 52 + 0 := by omega
      rw [hnext, codeSteps_normal 0 (by decide)]
      omega
  · have hpos := Nat.two_pow_pos k
    rw [codeSteps_normal k hm]
    rcases Nat.lt_or_ge (m + 1) (2 ^ 52) with hlt | hge
    · rw [Nat.add_assoc, codeSteps_normal k hlt]
      exact Nat.mul_lt_mul_of_pos_right (by omega) hpos
    · have hnext : (k + 1) * 2 ^ 52 + m + 1 = (k + 1 + 1) * 2 ^ 52 + 0 := by omega
      rw [hnext, codeSteps_normal (k + 1) (by decide), Nat.pow_succ 2 k, Nat.mul_comm (2 ^ k),
        ← Nat.mul_assoc]
      exact Nat.mul_lt_mul_of_pos_right (by omega) hpos

/-- The codes of one exponent, and the one after them, measure multiples of their step. -/
theorem codeSteps_grid {shift m : Nat} (hlow : 2 ^ 52 ≤ m ∨ shift = 0) (hhigh : m ≤ 2 ^ 53) :
    codeSteps (shift * 2 ^ 52 + m) = m * 2 ^ shift := by
  rcases Nat.lt_or_ge m (2 ^ 52) with hlt | hge
  · obtain rfl : shift = 0 := hlow.resolve_left (by omega)
    rw [Nat.zero_mul, Nat.zero_add, codeSteps_of_lt hlt, Nat.pow_zero, Nat.mul_one]
  · rcases Nat.lt_or_ge m (2 ^ 53) with hlt | hge'
    · have hcode : shift * 2 ^ 52 + m = (shift + 1) * 2 ^ 52 + (m - 2 ^ 52) := by omega
      rw [hcode, codeSteps_normal shift (by omega), Nat.add_sub_cancel' hge]
    · have hcode : shift * 2 ^ 52 + m = (shift + 1 + 1) * 2 ^ 52 + 0 := by omega
      have hm : m + 0 = (2 ^ 52 + 0) * 2 := by omega
      rw [hcode, codeSteps_normal (shift + 1) (by decide), Nat.pow_succ 2 shift,
        Nat.mul_comm (2 ^ shift), ← Nat.mul_assoc, ← Nat.add_zero m, hm]

/-- The codes from an exponent on measure multiples of its step. -/
theorem exists_codeSteps_eq_mul {shift c : Nat} (h : shift = 0 ∨ (shift + 1) * 2 ^ 52 ≤ c) :
    ∃ k, codeSteps c = k * 2 ^ shift := by
  obtain rfl | h := h
  · exact ⟨codeSteps c, by simp⟩
  · obtain hlt | ⟨k, m, hm, rfl⟩ := code_cases c
    · omega
    · obtain ⟨d, rfl⟩ : ∃ d, k = d + shift := ⟨k - shift, by omega⟩
      exact ⟨(2 ^ 52 + m) * 2 ^ d, by rw [codeSteps_normal _ hm, Nat.pow_add, Nat.mul_assoc]⟩

/-! ## Rounded quotients -/

/-- A rounded quotient is off by at most half a unit, and it is even when it is off by just half. -/
theorem roundQuotient_error (num : Nat) {den : Nat} (hden : 0 < den) :
    2 * |(roundQuotient num den * den : Int) - num| ≤ den ∧
      (2 * |(roundQuotient num den * den : Int) - num| = den → roundQuotient num den % 2 = 0) := by
  have hnum : num / den * den + num % den = num := Nat.div_add_mod' num den
  have hrem := Nat.mod_lt num hden
  have hsucc : (num / den + 1) * den = num / den * den + den := Nat.succ_mul ..
  have hbelow : |((num / den : Nat) * den : Int) - num| = (num % den : Nat) := by
    rw [abs_of_nonpos (by omega)]
    omega
  have habove : |((num / den + 1 : Nat) * den : Int) - num| = den - (num % den : Nat) := by
    rw [abs_of_nonneg (by omega)]
    omega
  unfold roundQuotient
  dsimp only
  split_ifs <;> simp only [hbelow, habove] <;> omega

/-- No multiple of the unit is nearer to a quotient than the rounded one, and one that is as near
leaves it even. -/
theorem roundQuotient_nearest (num : Nat) {den : Nat} (hden : 0 < den) (k : Nat) :
    |(roundQuotient num den * den : Int) - num| ≤ |(k * den : Int) - num| ∧
      (k ≠ roundQuotient num den →
        |(roundQuotient num den * den : Int) - num| = |(k * den : Int) - num| →
          roundQuotient num den % 2 = 0) := by
  obtain ⟨herror, heven⟩ := roundQuotient_error num hden
  by_cases hk : k = roundQuotient num den
  · subst hk
    exact ⟨le_rfl, fun h => absurd rfl h⟩
  · generalize roundQuotient num den = a at *
    have hapart : (den : Int) ≤ |(k * den : Int) - a * den| := by
      rw [← sub_mul, abs_mul, Nat.abs_cast]
      exact le_mul_of_one_le_left (by omega) (Int.one_le_abs (by omega))
    have htriangle := abs_sub_le (k * den : Int) num (a * den)
    rw [abs_sub_comm (num : Int)] at htriangle
    exact ⟨by omega, fun _ htie => heven (by omega)⟩

/-- A rounded quotient is the natural below or the one above. -/
theorem roundQuotient_bounds (num den : Nat) :
    num / den ≤ roundQuotient num den ∧ roundQuotient num den ≤ num / den + 1 := by
  unfold roundQuotient
  dsimp only
  split_ifs <;> omega

/-! ## Rounded magnitudes -/

/-- The multiple that a quotient is rounded to has the size of the exponent that was chosen for
it. -/
theorem roundQuotient_size (scaled den : Nat) :
    let shift := (scaled / den).log2 - 52
    (2 ^ 52 * (den * 2 ^ shift) ≤ scaled ∧ 2 ^ 52 ≤ roundQuotient scaled (den * 2 ^ shift) ∨
      shift = 0) ∧
      roundQuotient scaled (den * 2 ^ shift) ≤ 2 ^ 53 := by
  intro shift
  obtain ⟨hbelow, habove⟩ := roundQuotient_bounds scaled (den * 2 ^ shift)
  rw [← Nat.div_div_eq_div_mul] at hbelow habove
  refine ⟨?_, ?_⟩
  · rcases Nat.eq_zero_or_pos shift with h | h
    · exact .inr h
    · refine .inl ?_
      have hne : scaled / den ≠ 0 := fun h0 => by simp [shift, h0] at h
      have hlog : (scaled / den).log2 = 52 + shift := by omega
      have hsize : 2 ^ 52 * 2 ^ shift ≤ scaled / den := by
        rw [← Nat.pow_add, ← hlog]
        exact Nat.log2_self_le hne
      refine ⟨?_, ((Nat.le_div_iff_mul_le (Nat.two_pow_pos shift)).2 hsize).trans hbelow⟩
      rw [Nat.mul_left_comm, Nat.mul_comm den]
      exact (Nat.mul_le_mul_right den hsize).trans (Nat.div_mul_le_self scaled den)
  · have hlt : scaled / den / 2 ^ shift < 2 ^ 53 := by
      rw [Nat.div_lt_iff_lt_mul (Nat.two_pow_pos shift), ← Nat.pow_add]
      exact Nat.lt_log2_self.trans_le (Nat.pow_le_pow_right (by decide) (by omega))
    omega

/-- No magnitude is nearer to a quotient than the one with the code of the quotient, and one that is
as near leaves that code even. -/
theorem codeOfRatio_nearest (num : Nat) {den : Nat} (hden : 0 < den) (c : Nat) :
    |(codeSteps (codeOfRatio num den) * den : Int) - (num * 2 ^ stepBits : Nat)| ≤
        |(codeSteps c * den : Int) - (num * 2 ^ stepBits : Nat)| ∧
      (c ≠ codeOfRatio num den →
        |(codeSteps (codeOfRatio num den) * den : Int) - (num * 2 ^ stepBits : Nat)| =
            |(codeSteps c * den : Int) - (num * 2 ^ stepBits : Nat)| →
          codeOfRatio num den % 2 = 0) := by
  unfold codeOfRatio
  simp only [Nat.pow_eq]
  generalize num * 2 ^ stepBits = scaled
  obtain ⟨hlow, hhigh⟩ := roundQuotient_size scaled den
  generalize (scaled / den).log2 - 52 = shift at hlow hhigh ⊢
  have hnearest := roundQuotient_nearest scaled (Nat.mul_pos hden (Nat.two_pow_pos shift))
  generalize roundQuotient scaled (den * 2 ^ shift) = m at hlow hhigh hnearest ⊢
  have hcode := codeSteps_grid (hlow.imp And.right id) hhigh
  have hunit : ∀ k : Nat, (k * 2 ^ shift : Nat) * (den : Int) =
      (k * (den * 2 ^ shift : Nat) : Int) :=
    fun k => by push_cast; ring
  -- Either `c` measures a multiple of the unit, or it is below the least magnitude of this size.
  by_cases hc : shift = 0 ∨ (shift + 1) * 2 ^ 52 ≤ c
  · obtain ⟨k, hk⟩ := exists_codeSteps_eq_mul hc
    rw [hcode, hk, hunit, hunit]
    refine ⟨(hnearest k).1, fun hne htie => ?_⟩
    have heven := (hnearest k).2 (fun hkm => hne (strictMono_codeSteps.injective ?_)) htie
    · omega
    · rw [hk, hkm, hcode]
  · obtain ⟨hshift, hbelow⟩ := not_or.1 hc
    have hleast := hlow.resolve_right hshift
    have hlt : codeSteps c < 2 ^ 52 * 2 ^ shift := by
      have := strictMono_codeSteps (Nat.not_le.1 hbelow)
      rwa [← Nat.add_zero ((shift + 1) * 2 ^ 52), codeSteps_normal shift (by decide),
        Nat.add_zero] at this
    have hfar : codeSteps c * den < 2 ^ 52 * (den * 2 ^ shift) := by
      rw [Nat.mul_left_comm, Nat.mul_comm]
      exact Nat.mul_lt_mul_of_pos_left hlt hden
    have hnear := (hnearest (2 ^ 52)).1
    rw [hcode, hunit]
    have hstrict : |((2 ^ 52 : Nat) * (den * 2 ^ shift : Nat) : Int) - scaled| <
        |(codeSteps c * den : Int) - scaled| := by
      rw [abs_of_nonpos (by omega), abs_of_nonpos (by omega)]
      omega
    exact ⟨hnear.trans hstrict.le, fun _ htie => absurd (hnear.trans_lt hstrict) htie.not_lt⟩

/-! ## Rounded rationals -/

namespace FiniteDouble

/-- The largest finite double. -/
def largest : FiniteDouble := ⟨false, ⟨finiteCodes - 1, by decide⟩⟩

/-- The largest double measures the steps of the last finite code. -/
theorem steps_largest : largest.steps = (codeSteps (finiteCodes - 1) : Int) :=
  if_neg Bool.false_ne_true

/-- The double nearest to a rational: no double is nearer, and if another magnitude is as near, the
code is the even one of the two. -/
structure IsNearest (x : FiniteDouble) (q : ℚ) : Prop where
  nearest : ∀ y : FiniteDouble, |x.toRat - q| ≤ |y.toRat - q|
  even : ∀ y : FiniteDouble, y.code ≠ x.code → |x.toRat - q| = |y.toRat - q| →
    (x.code : Nat) % 2 = 0

/-- How far a double is from a rational, as a whole number of units. -/
theorem abs_toRat_sub (x : FiniteDouble) (q : ℚ) :
    |x.toRat - q| * (q.den * (2 ^ stepBits : Nat)) =
      (|x.steps * q.den - q.num * (2 ^ stepBits : Nat)| : Int) := by
  have hden : (0 : ℚ) < q.den := by exact_mod_cast q.den_pos
  have hsteps : (0 : ℚ) < (2 ^ stepBits : Nat) := by exact_mod_cast Nat.two_pow_pos stepBits
  rw [toRat, Nat.pow_eq, Rat.mkRat_eq_div]
  generalize 2 ^ stepBits = unit at hsteps ⊢
  have hnum : q * q.den = q.num := Rat.mul_den_eq_num q
  have hcancel : (x.steps : ℚ) / unit * unit = x.steps := div_mul_cancel₀ _ hsteps.ne'
  rw [← abs_of_pos (mul_pos hden hsteps), ← abs_mul, Int.cast_abs]
  congr 1
  push_cast
  linear_combination (q.den : ℚ) * hcancel - (unit : ℚ) * hnum

/-- Doubles are compared by those units. -/
theorem abs_toRat_sub_le {x y : FiniteDouble} {q : ℚ} :
    |x.toRat - q| ≤ |y.toRat - q| ↔
      |x.steps * q.den - q.num * (2 ^ stepBits : Nat)| ≤
        (|y.steps * q.den - q.num * (2 ^ stepBits : Nat)| : Int) := by
  have hunit : (0 : ℚ) < q.den * (2 ^ stepBits : Nat) :=
    mul_pos (by exact_mod_cast q.den_pos) (by exact_mod_cast Nat.two_pow_pos stepBits)
  rw [← mul_le_mul_iff_left₀ hunit, abs_toRat_sub, abs_toRat_sub, Int.cast_le]

/-- The magnitude of a double is no farther from the magnitude of a rational than the double is from
the rational, and just as far if their signs agree. -/
theorem magnitude_le (x : FiniteDouble) (n : Int) (den unit : Nat) :
    |(codeSteps x.code * den : Int) - (n.natAbs * unit : Nat)| ≤ |x.steps * den - n * unit| ∧
      (x.negative = decide (n < 0) →
        |(codeSteps x.code * den : Int) - (n.natAbs * unit : Nat)| =
        |x.steps * den - n * unit|) := by
  have hmagnitude : |x.steps * den| = (codeSteps x.code * den : Int) := by
    rw [abs_mul, Int.abs_eq_natAbs, natAbs_steps, Nat.abs_cast]
  have hnumber : |n * unit| = (n.natAbs * unit : Nat) := by
    rw [abs_mul, Int.abs_eq_natAbs, Nat.abs_cast, Nat.cast_mul]
  rw [← hmagnitude, ← hnumber]
  refine ⟨abs_abs_sub_abs_le _ _, fun hsign => ?_⟩
  by_cases hn : n < 0
  · have hle : x.steps ≤ 0 := by
      rw [steps, hsign, if_pos (decide_eq_true hn)]
      omega
    rw [abs_of_nonpos (mul_nonpos_of_nonpos_of_nonneg hle (Int.natCast_nonneg den)),
      abs_of_nonpos (mul_nonpos_of_nonpos_of_nonneg (Int.le_of_lt hn) (Int.natCast_nonneg unit)),
      neg_sub_neg, abs_sub_comm]
  · have hle : 0 ≤ x.steps := by
      rw [steps, hsign, if_neg (by simpa using hn)]
      omega
    rw [abs_of_nonneg (mul_nonneg hle (Int.natCast_nonneg den)),
      abs_of_nonneg (mul_nonneg (Int.not_lt.1 hn) (Int.natCast_nonneg unit))]

/-- A double of the sign and the code of a rational is the nearest to it. -/
theorem isNearest_of_code {x : FiniteDouble} {q : ℚ} (hsign : x.negative = decide (q.num < 0))
    (hcode : (x.code : Nat) = codeOfRatio q.num.natAbs q.den) : x.IsNearest q := by
  have hnearest := fun c => codeOfRatio_nearest q.num.natAbs q.den_pos c
  rw [← hcode] at hnearest
  have hx := (x.magnitude_le q.num q.den (2 ^ stepBits)).2 hsign
  refine ⟨fun y => abs_toRat_sub_le.2 ?_, fun y hy htie => (hnearest y.code).2 ?_ ?_⟩
  · rw [← hx]
    exact ((hnearest y.code).1).trans (y.magnitude_le q.num q.den _).1
  · exact fun h => hy (Fin.ext h)
  · have hge := abs_toRat_sub_le.1 htie.ge
    rw [← hx] at hge
    exact le_antisymm (hnearest y.code).1 ((y.magnitude_le q.num q.den _).1.trans hge)

end FiniteDouble

/-- The code of a quotient that is not beyond the largest magnitude is finite. -/
theorem codeOfRatio_lt {num den : Nat} (hden : 0 < den)
    (h : num * 2 ^ stepBits ≤ codeSteps (finiteCodes - 1) * den) :
    codeOfRatio num den < finiteCodes := by
  by_contra hge
  have hlt : codeSteps (finiteCodes - 1) < codeSteps (codeOfRatio num den) :=
    strictMono_codeSteps (Nat.lt_of_lt_of_le (by decide) (Nat.not_lt.1 hge))
  have hmul := Nat.mul_lt_mul_of_pos_right hlt hden
  have hnearest := (codeOfRatio_nearest num hden (finiteCodes - 1)).1
  generalize codeSteps (codeOfRatio num den) = m at hmul hnearest
  generalize codeSteps (finiteCodes - 1) = l at h hmul hnearest
  rw [abs_of_nonneg (by omega), abs_of_nonneg (by omega)] at hnearest
  omega

/-- A rational that is not beyond the largest double is rounded to the double nearest to it. -/
theorem Double.exists_isNearest {q : ℚ} (hq : |q| ≤ FiniteDouble.largest.toRat) :
    ∃ x : FiniteDouble, Double.ofRat q = .finite x ∧ x.IsNearest q := by
  have hcode : codeOfRatio q.num.natAbs q.den < finiteCodes := by
    refine codeOfRatio_lt q.den_pos ?_
    have hunit : (0 : ℚ) < (2 ^ stepBits : Nat) := by exact_mod_cast Nat.two_pow_pos stepBits
    have hden : (0 : ℚ) ≤ q.den := Nat.cast_nonneg _
    have hnum : |q| * q.den = q.num.natAbs := by
      rw [← abs_of_nonneg hden, ← abs_mul, Rat.mul_den_eq_num, Nat.cast_natAbs, Int.cast_abs]
    have hsteps : FiniteDouble.largest.toRat = codeSteps (finiteCodes - 1) /
        (2 ^ stepBits : Nat) := by
      rw [FiniteDouble.toRat, Nat.pow_eq, Rat.mkRat_eq_div,
        FiniteDouble.steps_largest, Int.cast_natCast]
    generalize 2 ^ stepBits = unit at hunit hsteps ⊢
    rw [hsteps, le_div_iff₀ hunit] at hq
    have hle := mul_le_mul_of_nonneg_right hq hden
    rw [mul_right_comm, hnum] at hle
    exact_mod_cast hle
  exact ⟨⟨decide (q.num < 0), ⟨_, hcode⟩⟩, by rw [Double.ofRat, Double.ofCode, dif_pos hcode],
    FiniteDouble.isNearest_of_code rfl rfl⟩

end EquationStudio
