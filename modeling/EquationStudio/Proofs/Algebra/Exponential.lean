import EquationStudio.Proofs.Algebra.Logarithm
import Mathlib.Analysis.SpecialFunctions.Pow.Real

/-!
# Exponentials and powers are enclosed

An exponent is reduced by a multiple of the logarithm of two, which leaves a small one
(`Interval.abs_reduced_le`), and the exponential series is cut off where what is left is less than
what is added on either side. Powers of positive numbers are exponentials, and natural powers of
other numbers come from them (`Interval.holds_natPow?`).
-/

namespace EquationStudio

namespace Interval

variable (bits : Nat)

/-! ## The exponential series -/

/-- The first terms of the exponential series. -/
noncomputable def expSum (r : ℝ) (n : Nat) : ℝ := ∑ i ∈ Finset.range n, r ^ i / (i.factorial : ℝ)

/-- The terms that are added up are those of the series. -/
theorem holds_expTerms {r : Interval} {x : ℝ} (hr : r.Holds x) :
    ∀ {count i : Nat} {term total : Interval},
    term.Holds (x ^ i / (i.factorial : ℝ)) → total.Holds (expSum x i) →
      (expTerms bits r count i term total).Holds (expSum x (i + count))
  | 0, _, _, _, _, htotal => htotal
  | count + 1, i, term, total, hterm, htotal => by
    have hsum := htotal.add bits hterm
    have hnext := (hterm.mul bits hr).mul bits (holds_point (mkRat 1 (i + 1)))
    have hpower : x ^ i / (i.factorial : ℝ) * x * (mkRat 1 (i + 1) : ℚ) =
        x ^ (i + 1) / ((i + 1).factorial : ℝ) := by
      rw [Rat.mkRat_eq_div, Nat.factorial_succ, pow_succ]
      push_cast
      field_simp
    rw [hpower] at hnext
    rw [show expSum x i + x ^ i / (i.factorial : ℝ) =
      expSum x (i + 1) from (Finset.sum_range_succ _ i).symm] at hsum
    rw [expTerms, ← Nat.add_assoc, Nat.add_right_comm]
    exact holds_expTerms hr hnext hsum

/-- Factorials outgrow the powers of four. -/
theorem four_pow_le_factorial (n : Nat) : 4 ^ (n + 1) ≤ (n + 8).factorial := by
  induction n with
  | zero => decide
  | succ n ih =>
    rw [pow_succ, Nat.mul_comm, show n + 1 + 8 = n + 8 + 1 by omega, Nat.factorial_succ]
    exact Nat.mul_le_mul (by omega) ih

/-- What the terms that are added up leave out is less than a digit. -/
theorem abs_exp_sub_le {x : ℝ} (hx : |x| ≤ 1) :
    |Real.exp x - expSum x (bits / 2 + 8)| ≤ 1 / 2 ^ bits := by
  refine (Real.exp_bound hx (Nat.succ_pos _)).trans ?_
  have hpower : |x| ^ (bits / 2 + 8) ≤ 1 := pow_le_one₀ (abs_nonneg x) hx
  have hfactorial : (2 * 2 ^ bits : ℝ) ≤ ((bits / 2 + 8).factorial : ℝ) := by
    have hfour : 2 ^ (bits + 1) ≤ 4 ^ (bits / 2 + 1) := by
      rw [show 4 = 2 ^ 2 from rfl, ← pow_mul]
      exact Nat.pow_le_pow_right two_pos (by omega)
    rw [← pow_succ']
    exact_mod_cast hfour.trans (four_pow_le_factorial (bits / 2))
  have hunit : (0 : ℝ) < 2 ^ bits := by positivity
  have hpos : (0 : ℝ) < ((bits / 2 + 8 : Nat) : ℝ) := Nat.cast_pos.2 (Nat.succ_pos _)
  have hone : (1 : ℝ) ≤ ((bits / 2 + 8 : Nat) : ℝ) := Nat.one_le_cast.2 (Nat.succ_pos _)
  have hrest : ((bits / 2 + 8).succ / ((bits / 2 + 8).factorial * (bits / 2 + 8 : Nat)) : ℝ) ≤
      1 / 2 ^ bits := by
    rw [Nat.cast_succ, div_le_div_iff₀ (by positivity) hunit]
    nlinarith
  exact (mul_le_of_le_one_left (by positivity) hpower).trans hrest

/-! ## Exponentials -/

variable {bits}

/-- What is left of an exponent within reach is small, whatever the ends of the interval for the
logarithm of two are rounded to. -/
theorem abs_reduced_le {l y : ℝ} (hlow : Real.log 2 - l ≤ 1 / 10 ^ 6) (hhigh : l ≤ Real.log 2)
    (hy : |y| ≤ 2 ^ 17) {k : ℝ} (hk : |y / l - k| ≤ 1 / 2) : |y - k * Real.log 2| ≤ 1 := by
  have hlog := Real.log_two_gt_d9
  have hlog' := Real.log_two_lt_d9
  have hl : 0.69 ≤ l := by linarith
  have hquotient : |y / l| ≤ 200000 := by
    rw [abs_div, abs_of_pos (by linarith : 0 < l), div_le_iff₀ (by linarith)]
    nlinarith
  have hkbound : |k| ≤ 200001 := by
    have := abs_sub_abs_le_abs_sub k (y / l)
    rw [abs_sub_comm] at this
    linarith
  have hsplit : y - k * Real.log 2 = l * (y / l - k) - k * (Real.log 2 - l) := by
    rw [mul_sub, mul_div_cancel₀ y (by linarith : l ≠ 0)]
    ring
  have hfirst : |l * (y / l - k)| ≤ 0.7 * (1 / 2) := by
    rw [abs_mul, abs_of_pos (by linarith : 0 < l)]
    exact mul_le_mul (by linarith) hk (abs_nonneg _) (by norm_num)
  have hsecond : |k * (Real.log 2 - l)| ≤ 200001 * (1 / 10 ^ 6) := by
    rw [abs_mul, abs_of_nonneg (sub_nonneg.2 hhigh)]
    exact mul_le_mul hkbound hlow (sub_nonneg.2 hhigh) (by norm_num)
  rw [hsplit]
  refine (abs_sub _ _).trans ?_
  norm_num at hfirst hsecond ⊢
  linarith

/-- An exponential below reach is almost zero. -/
theorem exp_neg_reach_le {y : ℝ} (hy : y ≤ -(reach : ℝ)) : Real.exp y ≤ 1 / 2 ^ reach := by
  have htwo : (2 : ℝ) ≤ Real.exp 1 := by linarith [Real.add_one_le_exp (1 : ℝ)]
  have hpower : (2 : ℝ) ^ reach ≤ Real.exp reach := by
    rw [← mul_one (reach : ℝ), Real.exp_nat_mul]
    exact pow_le_pow_left₀ zero_le_two htwo reach
  refine (Real.exp_le_exp.2 hy).trans ?_
  rw [Real.exp_neg, ← one_div]
  exact one_div_le_one_div_of_le (by positivity) hpower

/-- The power of two that an exponential is scaled by. -/
theorem scale_eq (k : ℤ) : (if 0 ≤ k then (2 : ℚ) ^ k.toNat else (2 ^ (-k).toNat)⁻¹) = 2 ^ k := by
  split
  · next hk => rw [← zpow_natCast, Int.toNat_of_nonneg hk]
  · next hk => rw [← zpow_natCast, Int.toNat_of_nonneg (by omega), zpow_neg, inv_inv]

/-- The exponential of a rational up to reach is enclosed. -/
theorem holds_expOf (hbits : 96 ≤ bits) {y : ℚ} (hy : y ≤ reach) :
    (expOf bits y).Holds (Real.exp y) := by
  unfold expOf
  split
  · next hlow =>
    refine ⟨?_, ?_⟩
    · rw [Rat.cast_zero]
      exact (Real.exp_pos _).le
    · rw [cast_digit]
      exact exp_neg_reach_le (by exact_mod_cast hlow.le)
  · next hlow =>
    have hln2 := holds_ln2 bits
    dsimp only
    have hk : |y / (ln2 bits).low - (y / (ln2 bits).low + 1 / 2).floor| ≤ 1 / 2 := by
      have hfloor : ((y / (ln2 bits).low + 1 / 2).floor : ℚ) ≤ y / (ln2 bits).low + 1 / 2 :=
        Int.floor_le _
      have hfloor' : y / (ln2 bits).low + 1 / 2 < (y / (ln2 bits).low + 1 / 2).floor + 1 :=
        Int.lt_floor_add_one _
      exact abs_le.2 ⟨by linarith, by linarith⟩
    rw [scale_eq]
    generalize (y / (ln2 bits).low + 1 / 2).floor = k at hk ⊢
    have hreduced : |(y : ℝ) - k * Real.log 2| ≤ 1 := by
      refine abs_reduced_le (log_two_sub_le hbits) hln2.low_le ?_ ?_
      · have hreach : ((reach : ℚ) : ℝ) = 2 ^ 17 := by norm_num [reach]
        rw [← hreach, abs_le, ← Rat.cast_neg]
        exact ⟨Rat.cast_le.2 (not_lt.1 hlow), Rat.cast_le.2 hy⟩
      · have hcast := Rat.cast_le (K := ℝ).2 hk
        push_cast at hcast
        exact hcast
    have hr := (holds_point y).add bits ((holds_point k).mul bits hln2).neg
    rw [← sub_eq_add_neg, Rat.cast_intCast] at hr
    have htotal := @holds_expTerms bits _ _ hr (bits / 2 + 8) 0 (point 1) (point 0)
      (by simpa using holds_point 1) (by simpa [expSum] using holds_point 0)
    rw [Nat.zero_add] at htotal
    have hrest := abs_le.1 (abs_exp_sub_le bits hreduced)
    have hexp : Real.exp y = Real.exp (y - k * Real.log 2) * (2 ^ k : ℚ) := by
      rw [Rat.cast_zpow, Rat.cast_ofNat]
      conv_rhs => rw [← Real.exp_log (zpow_pos (two_pos (α := ℝ)) k), Real.log_zpow,
        ← Real.exp_add, sub_add_cancel]
    have hscale : (0 : ℝ) ≤ (2 ^ k : ℚ) := by positivity
    rw [hexp]
    refine Holds.shorten bits ⟨?_, ?_⟩
    · rw [Rat.cast_mul, Rat.cast_sub, cast_digit]
      exact mul_le_mul_of_nonneg_right (by linarith [htotal.low_le]) hscale
    · rw [Rat.cast_mul, Rat.cast_add, cast_digit]
      exact mul_le_mul_of_nonneg_right (by linarith [htotal.le_high]) hscale

variable {a i : Interval} {x : ℝ}

/-- An exponential that is enclosed is enclosed by what is found. -/
theorem holds_exp? (hbits : 96 ≤ bits) (ha : a.Holds x) (h : exp? bits a = some i) :
    i.Holds (Real.exp x) := by
  unfold exp? at h
  split at h
  · next hhigh =>
    cases h
    have hlow : a.low ≤ reach := (Rat.cast_le (K := ℝ).1 (ha.low_le.trans ha.le_high)).trans hhigh
    exact ⟨(holds_expOf hbits hlow).low_le.trans (Real.exp_le_exp.2 ha.low_le),
      (Real.exp_le_exp.2 ha.le_high).trans (holds_expOf hbits hhigh).le_high⟩
  · cases h

/-! ## Logarithms and powers of intervals -/

/-- A logarithm that is enclosed is that of a positive number, and enclosed by what is found. -/
theorem holds_ln? (ha : a.Holds x) (h : a.ln? bits = some i) : 0 < x ∧ i.Holds (Real.log x) := by
  unfold ln? at h
  split at h
  · next hlow =>
    cases h
    have hpos : (0 : ℝ) < a.low := by exact_mod_cast hlow
    have hx : 0 < x := hpos.trans_le ha.low_le
    have hhigh : 0 < a.high := Rat.cast_pos (K := ℝ).1 (hx.trans_le ha.le_high)
    exact ⟨hx, (holds_lnOf bits hlow).low_le.trans (Real.log_le_log hpos ha.low_le),
      (Real.log_le_log hx ha.le_high).trans (holds_lnOf bits hhigh).le_high⟩
  · cases h

/-- A natural power by way of the logarithm. -/
theorem holds_expLn (hbits : 96 ≤ bits) (ha : a.Holds x) {l : Interval}
    (hl : a.ln? bits = some l) {n : Nat}
    (h : exp? bits (mul bits (point n) l) = some i) : i.Holds (x ^ n) := by
  obtain ⟨hx, hlog⟩ := holds_ln? ha hl
  have hexp := holds_exp? hbits ((holds_point n).mul bits hlog) h
  rwa [Rat.cast_natCast, Real.exp_nat_mul, Real.exp_log hx] at hexp

/-- A natural power that is enclosed is enclosed by what is found. -/
theorem holds_natPow? (hbits : 96 ≤ bits) (ha : a.Holds x) {n : Nat}
    (h : a.natPow? bits n = some i) : i.Holds (x ^ n) := by
  unfold natPow? at h
  split at h
  · cases h
    exact ha.pow bits Nat.lt_log2_self
  split at h
  · obtain ⟨l, hl, h⟩ := Option.bind_eq_some_iff.1 h
    exact holds_expLn hbits ha hl h
  · obtain ⟨l, hl, h⟩ := Option.bind_eq_some_iff.1 h
    obtain ⟨p, hp, h⟩ := Option.bind_eq_some_iff.1 h
    have hpower := holds_expLn hbits ha.neg hl hp
    cases h
    split
    · next heven => rwa [(Nat.even_iff.2 heven).neg_pow] at hpower
    · next hodd =>
      rw [(Nat.odd_iff.2 (Nat.mod_two_ne_zero.1 hodd)).neg_pow] at hpower
      simpa using hpower.neg

end Interval

end EquationStudio
