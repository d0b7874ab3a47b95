import EquationStudio.Proofs.Algebra.Interval
import Mathlib.Analysis.Complex.ExponentialBounds
import Mathlib.Analysis.SpecialFunctions.Log.Deriv
import Mathlib.Tactic.FieldSimp

/-!
# Logarithms are enclosed

The series of the inverse hyperbolic tangent is cut off where what is left is less than what is
added on either side (`Interval.holds_atanh`), so the logarithms that come from it are enclosed
(`Interval.holds_lnOf`). The logarithm of two is enclosed narrowly, too (`Interval.log_two_sub_le`):
exponents are reduced by it, and have to be small then.
-/

namespace EquationStudio

namespace Interval

variable (bits : Nat)

/-! ## The inverse hyperbolic tangent -/

/-- The inverse hyperbolic tangent. -/
noncomputable def artanh (z : ℝ) : ℝ := (Real.log (1 + z) - Real.log (1 - z)) / 2

/-- The first terms of its series. -/
noncomputable def artanhSum (z : ℝ) (n : Nat) : ℝ :=
  ∑ i ∈ Finset.range n, z ^ (2 * i + 1) / (2 * i + 1)

/-- One more term. -/
theorem artanhSum_succ (z : ℝ) (n : Nat) :
    artanhSum z (n + 1) = artanhSum z n + z ^ (2 * n + 1) * (mkRat 1 (2 * n + 1) : ℚ) := by
  rw [artanhSum, Finset.sum_range_succ, Rat.mkRat_eq_div]
  push_cast
  rw [mul_one_div]
  rfl

/-- The terms are those of the series of the logarithm with odd exponents. -/
theorem two_mul_artanhSum (z : ℝ) (n : Nat) : 2 * artanhSum z n =
    (∑ i ∈ Finset.range (2 * n), z ^ (i + 1) / (i + 1)) -
      ∑ i ∈ Finset.range (2 * n), (-z) ^ (i + 1) / ((i : ℝ) + 1) := by
  induction n with
  | zero => simp [artanhSum]
  | succ n ih =>
    have hodd : (-z) ^ (2 * n + 1) = -z ^ (2 * n + 1) := Odd.neg_pow ⟨n, rfl⟩ z
    have heven : (-z) ^ (2 * n + 1 + 1) = z ^ (2 * n + 1 + 1) := Even.neg_pow ⟨n + 1, by ring⟩ z
    rw [artanhSum, Finset.sum_range_succ, mul_add, ← artanhSum, ih,
      show 2 * (n + 1) = 2 * n + 1 + 1 by ring, Finset.sum_range_succ, Finset.sum_range_succ,
      Finset.sum_range_succ, Finset.sum_range_succ, hodd, heven]
    push_cast
    ring

/-- What the first terms leave out. -/
theorem abs_artanh_sub_le {z : ℝ} (hz : |z| ≤ 1 / 3) (n : Nat) :
    |artanh z - artanhSum z n| ≤ 1 / 8 ^ n := by
  have hlt : |z| < 1 := hz.trans_lt (by norm_num)
  have hpos := Real.abs_log_sub_add_sum_range_le hlt (2 * n)
  have hneg := Real.abs_log_sub_add_sum_range_le (x := -z) (by rwa [abs_neg]) (2 * n)
  rw [sub_neg_eq_add, abs_neg] at hneg
  have hrest : |z| ^ (2 * n + 1) / (1 - |z|) ≤ 1 / 8 ^ n := by
    have hpower : |z| ^ (2 * n + 1) ≤ 1 / 8 ^ n * (1 / 3) := by
      rw [pow_succ, pow_mul]
      refine mul_le_mul ?_ hz (abs_nonneg z) (by positivity)
      rw [← one_div_pow]
      refine pow_le_pow_left₀ (by positivity) ?_ n
      nlinarith [abs_nonneg z]
    rw [div_le_iff₀ (by linarith)]
    have h8 : (0 : ℝ) < 1 / 8 ^ n := by positivity
    nlinarith
  have hsum := two_mul_artanhSum z n
  rw [artanh, abs_le]
  constructor <;> linarith [abs_le.1 (hpos.trans hrest), abs_le.1 (hneg.trans hrest)]

/-- The terms that are added up are those of the series. -/
theorem holds_atanhTerms {square : Interval} {z : ℝ} (hsquare : square.Holds (z * z)) :
    ∀ {count i : Nat} {power total : Interval}, power.Holds (z ^ (2 * i + 1)) →
      total.Holds (artanhSum z i) →
      (atanhTerms bits square count i power total).Holds (artanhSum z (i + count))
  | 0, _, _, _, _, htotal => htotal
  | count + 1, i, power, total, hpower, htotal => by
    have hterm := htotal.add bits (hpower.mul bits (holds_point (mkRat 1 (2 * i + 1))))
    have hnext := hpower.mul bits hsquare
    rw [← artanhSum_succ] at hterm
    rw [← sq, ← pow_add, show 2 * i + 1 + 2 = 2 * (i + 1) + 1 by ring] at hnext
    rw [atanhTerms, ← Nat.add_assoc, Nat.add_right_comm]
    exact holds_atanhTerms hsquare hnext hterm

/-- What the terms that are added up leave out is less than a digit. -/
theorem eight_pow_bound : (1 : ℝ) / 8 ^ (bits / 3 + 2) ≤ 1 / 2 ^ bits := by
  rw [show (8 : ℝ) = 2 ^ 3 by norm_num, ← pow_mul]
  exact one_div_le_one_div_of_le (by positivity) (pow_le_pow_right₀ one_le_two (by omega))

/-- The digit that is added on either side. -/
theorem cast_digit : ((mkRat 1 (Nat.pow 2 bits) : ℚ) : ℝ) = 1 / 2 ^ bits := by
  rw [Rat.mkRat_eq_div, Nat.pow_eq]
  push_cast
  rfl

/-- The inverse hyperbolic tangent is enclosed. -/
theorem holds_atanh {z : ℚ} (hz : |(z : ℝ)| ≤ 1 / 3) : (atanh bits z).Holds (artanh z) := by
  have hz' : ((point z).shorten bits).Holds z := (holds_point z).shorten bits
  have hfirst : ((point z).shorten bits).Holds ((z : ℝ) ^ (2 * 0 + 1)) := by simpa using hz'
  have hnone : (point 0).Holds (artanhSum z 0) := by simpa [artanhSum] using holds_point 0
  have htotal := @holds_atanhTerms bits _ _ (hz'.mul bits hz') (bits / 3 + 2) 0 _ _ hfirst hnone
  rw [Nat.zero_add] at htotal
  have hrest := abs_le.1 (abs_artanh_sub_le hz (bits / 3 + 2))
  have hbound := eight_pow_bound bits
  refine Holds.shorten bits ⟨?_, ?_⟩
  · rw [Rat.cast_sub, cast_digit]
    linarith [htotal.low_le]
  · rw [Rat.cast_add, cast_digit]
    linarith [htotal.le_high]

/-! ## Logarithms -/

/-- The logarithm of two is twice the inverse hyperbolic tangent of a third. -/
theorem log_eq_artanh {m : ℝ} (hm : 0 < m) : Real.log m = 2 * artanh ((m - 1) / (m + 1)) := by
  have hden : 0 < m + 1 := by linarith
  have hplus : 1 + (m - 1) / (m + 1) = 2 * m / (m + 1) := by field_simp; ring
  have hminus : 1 - (m - 1) / (m + 1) = 2 / (m + 1) := by field_simp; ring
  rw [artanh, hplus, hminus, ← Real.log_div (by positivity) (by positivity),
    div_div_div_cancel_right₀ hden.ne', mul_div_cancel_left₀ m two_ne_zero]
  ring

/-- The logarithm of two is enclosed. -/
theorem holds_ln2 : (ln2 bits).Holds (Real.log 2) := by
  have hthird : ((mkRat 1 3 : ℚ) : ℝ) = (2 - 1) / (2 + 1) := by
    rw [Rat.mkRat_eq_div]
    norm_num
  have hatanh : (atanh bits (mkRat 1 3)).Holds (artanh (mkRat 1 3 : ℚ)) :=
    holds_atanh bits (by rw [hthird]; norm_num)
  rw [hthird] at hatanh
  rw [log_eq_artanh two_pos]
  exact_mod_cast (holds_point 2).mul bits hatanh

/-- The logarithm of a number between a half and two, times a power of two, is enclosed. -/
theorem holds_logScaled {m : ℚ} (hlow : 1 / 2 ≤ m) (hhigh : m ≤ 2) (k : ℤ) :
    (add bits (mul bits (point k) (ln2 bits))
      (mul bits (point 2) (atanh bits ((m - 1) / (m + 1))))).Holds
      (Real.log (m * 2 ^ k : ℚ)) := by
  have hden : (0 : ℚ) < m + 1 := by linarith
  have hsmall : |(m - 1) / (m + 1)| ≤ 1 / 3 := by
    rw [abs_div, abs_of_pos hden, div_le_iff₀ hden, abs_le]
    constructor <;> linarith
  have hsmall' : |(((m - 1) / (m + 1) : ℚ) : ℝ)| ≤ 1 / 3 := by
    rw [← Rat.cast_abs]
    exact (Rat.cast_le.2 hsmall).trans_eq (by norm_num)
  have hpos : (0 : ℝ) < m := by exact_mod_cast (by linarith : (0 : ℚ) < m)
  have hlog : Real.log (m * 2 ^ k : ℚ) = (k : ℚ) * Real.log 2 + (2 : ℚ) * artanh
      ((m - 1) / (m + 1) : ℚ) := by
    push_cast
    rw [Real.log_mul hpos.ne' (zpow_pos two_pos k).ne', Real.log_zpow, log_eq_artanh hpos]
    ring
  rw [hlog]
  exact ((holds_point k).mul bits (holds_ln2 bits)).add bits
    ((holds_point 2).mul bits (holds_atanh bits hsmall'))

/-- The logarithm of a positive rational is enclosed. -/
theorem holds_lnOf {q : ℚ} (hq : 0 < q) : (lnOf bits q).Holds (Real.log q) := by
  have hm : mkRat (q.num * Nat.pow 2 (-magnitude q).toNat) (q.den * Nat.pow 2 (magnitude q).toNat) =
      q / 2 ^ magnitude q := by
    generalize magnitude q = k
    rw [Rat.mkRat_eq_div, ← two_pow_toNat_div]
    conv_rhs => rw [← Rat.num_div_den q]
    simp only [Nat.pow_eq]
    push_cast
    rw [div_div_div_eq]
  have hunit : (0 : ℚ) < 2 ^ magnitude q := zpow_pos two_pos _
  obtain ⟨hlow, hhigh⟩ := magnitude_bounds hq
  have hmlow : 1 / 2 < q / 2 ^ magnitude q := by rw [lt_div_iff₀ hunit]; linarith
  have hmhigh : q / 2 ^ magnitude q < 2 := by rw [div_lt_iff₀ hunit]; linarith
  have hquotient : q = q / 2 ^ magnitude q * 2 ^ magnitude q := (div_mul_cancel₀ q hunit.ne').symm
  unfold lnOf
  dsimp only
  rw [show (q.num.natAbs.log2 : ℤ) - q.den.log2 = magnitude q from rfl, hm]
  generalize magnitude q = k at *
  generalize q / 2 ^ k = m at *
  rw [hquotient]
  split
  · have hhalf := holds_logScaled bits (m := m / 2) (by linarith) (by linarith) (k + 1)
    rwa [zpow_add_one₀ two_ne_zero, div_mul_eq_mul_div, mul_comm (2 ^ k) 2, mul_left_comm,
      mul_div_cancel_left₀ _ two_ne_zero] at hhalf
  · split
    · have hdouble := holds_logScaled bits (m := m * 2) (by linarith) (by linarith) (k - 1)
      rwa [zpow_sub_one₀ two_ne_zero, mul_comm (2 ^ k) 2⁻¹, mul_assoc,
        mul_inv_cancel_left₀ two_ne_zero] at hdouble
    · exact holds_logScaled bits hmlow.le hmhigh.le k

/-! ## How narrow the logarithm of two is enclosed -/

/-- A third is small enough for all partial sums of the series to stay below one. -/
theorem artanhSum_third_le (n : Nat) : artanhSum (1 / 3) n ≤ 1 - (1 / 3) ^ n := by
  induction n with
  | zero => simp [artanhSum]
  | succ n ih =>
    have hterm : (1 / 3 : ℝ) ^ (2 * n + 1) * (mkRat 1 (2 * n + 1) : ℚ) ≤ (1 / 3) ^ n * (1 / 3) := by
      have hfactor : ((mkRat 1 (2 * n + 1) : ℚ) : ℝ) ≤ 1 := by
        rw [Rat.mkRat_eq_div]
        push_cast
        rw [div_le_one (by positivity)]
        linarith [(Nat.cast_nonneg n : (0 : ℝ) ≤ n)]
      have hpower : (1 / 3 : ℝ) ^ (2 * n + 1) ≤ (1 / 3) ^ n * (1 / 3) := by
        rw [← pow_succ]
        exact pow_le_pow_of_le_one (by norm_num) (by norm_num) (by omega)
      exact (mul_le_of_le_one_right (by positivity) hfactor).trans hpower
    have hpos : (0 : ℝ) < (1 / 3) ^ n := by positivity
    rw [artanhSum_succ, pow_succ (1 / 3 : ℝ) n]
    linarith

/-- The lower ends of the sums fall behind by some digits for each term. -/
theorem near_atanhTerms {square : Interval}
    (hsquare : square.Near (1 / 3 * (1 / 3)) (3 * (2 / 2 ^ bits))) :
    ∀ {count i : Nat} {power total : Interval},
      power.Near ((1 / 3) ^ (2 * i + 1)) ((4 * i + 1) * (2 / 2 ^ bits)) →
      total.Near (artanhSum (1 / 3) i) ((2 * i ^ 2 + i) * (2 / 2 ^ bits)) →
      (atanhTerms bits square count i power total).Near (artanhSum (1 / 3) (i + count))
        ((2 * (i + count : Nat) ^ 2 + (i + count : Nat)) * (2 / 2 ^ bits))
  | 0, _, _, _, _, htotal => htotal
  | count + 1, i, power, total, hpower, htotal => by
    have hfactor : mkRat 1 (2 * i + 1) ≤ 1 := by
      rw [Rat.mkRat_eq_div]
      push_cast
      rw [div_le_one (by positivity)]
      linarith [(Nat.cast_nonneg i : (0 : ℚ) ≤ i)]
    have hfactor' : 0 ≤ mkRat 1 (2 * i + 1) := by
      rw [Rat.mkRat_eq_div]
      positivity
    have hone : artanhSum (1 / 3) i + (1 / 3) ^ (2 * i + 1) * (mkRat 1 (2 * i + 1) : ℚ) ≤ 1 := by
      rw [← artanhSum_succ]
      exact (artanhSum_third_le (i + 1)).trans
        (by linarith [show (0 : ℝ) < (1 / 3) ^ (i + 1) by positivity])
    have hterm := htotal.add bits (hpower.mul bits (near_point hfactor' hfactor)) hone
    have hnext := hpower.mul bits hsquare
    rw [← artanhSum_succ] at hterm
    rw [← sq, ← pow_add, show 2 * i + 1 + 2 = 2 * (i + 1) + 1 by ring] at hnext
    rw [atanhTerms, ← Nat.add_assoc, Nat.add_right_comm]
    refine near_atanhTerms hsquare ?_ ?_
    · convert hnext using 1
      push_cast
      ring
    · convert hterm using 1
      push_cast
      ring

/-- Many digits outweigh a square. -/
theorem square_le_two_pow {n : Nat} (hn : 96 ≤ n) : (8 * n ^ 2 + 4 * n + 10) * 10 ^ 6 ≤ 2 ^ n := by
  induction n, hn using Nat.le_induction with
  | base => norm_num
  | succ n hn ih =>
    rw [pow_succ 2 n]
    nlinarith

/-- What rounding loses altogether. -/
theorem loss_le {bits : Nat} (hbits : 96 ≤ bits) :
    2 * ((2 * (bits / 3 + 2 : Nat) ^ 2 + (bits / 3 + 2 : Nat) + 2) * (2 / 2 ^ bits : ℝ)) +
      2 / 2 ^ bits ≤ 1 / 10 ^ 6 := by
  have hpower : ((8 * bits ^ 2 + 4 * bits + 10) * 10 ^ 6 : ℝ) ≤ 2 ^ bits := by
    exact_mod_cast square_le_two_pow hbits
  have hcount : ((bits / 3 + 2 : Nat) : ℝ) ≤ bits := Nat.cast_le.2 (by omega)
  have hsquare : ((bits / 3 + 2 : Nat) : ℝ) ^ 2 ≤ bits ^ 2 :=
    pow_le_pow_left₀ (Nat.cast_nonneg _) hcount 2
  have hunit : (0 : ℝ) < 2 ^ bits := by positivity
  rw [mul_div_assoc', mul_div_assoc', ← add_div, div_le_div_iff₀ hunit (by positivity)]
  linarith

/-- The logarithm of two is twice the inverse hyperbolic tangent of a third. -/
theorem log_two_eq : Real.log 2 = 2 * artanh (1 / 3) := by
  rw [log_eq_artanh two_pos]
  norm_num

/-- The inverse hyperbolic tangent of a third is enclosed by an interval that begins not far below
it. -/
theorem near_atanh_third {bits : Nat} (hbits : 96 ≤ bits) :
    (atanh bits (mkRat 1 3)).Near (artanh (1 / 3))
    ((2 * (bits / 3 + 2 : Nat) ^ 2 + (bits / 3 + 2 : Nat) + 2) * (2 / 2 ^ bits)) := by
  have hthird : ((mkRat 1 3 : ℚ) : ℝ) = 1 / 3 := by
    rw [Rat.mkRat_eq_div]
    norm_num
  have hpoint : (point (mkRat 1 3)).Near (1 / 3) 0 :=
    hthird ▸ near_point (by decide +kernel) (by decide +kernel)
  have hz : ((point (mkRat 1 3)).shorten bits).Near (1 / 3) (2 / 2 ^ bits) := by
    simpa using hpoint.shorten bits
  have hsquare : (mul bits ((point (mkRat 1 3)).shorten bits)
      ((point (mkRat 1 3)).shorten bits)).Near
      (1 / 3 * (1 / 3)) (3 * (2 / 2 ^ bits)) := by
    convert hz.mul bits hz using 1
    ring
  have htotal :=
    @near_atanhTerms bits _ hsquare (bits / 3 + 2) 0 ((point (mkRat 1 3)).shorten bits) (point 0)
    (by simpa using hz) (by simpa [artanhSum] using near_point le_rfl zero_le_one)
  rw [Nat.zero_add] at htotal
  have hrest :=
    abs_le.1 ((abs_artanh_sub_le (z := 1 / 3) (by norm_num) (bits / 3 + 2)).trans
      (eight_pow_bound bits))
  have hloss := loss_le hbits
  have hlog := Real.log_two_gt_d9
  have hlog' := Real.log_two_lt_d9
  rw [log_two_eq] at hlog hlog'
  have hunit : (0 : ℝ) < 1 / 2 ^ bits := by positivity
  have hdigit : (2 : ℝ) / 2 ^ bits = 2 * (1 / 2 ^ bits) := by ring
  rw [hdigit] at htotal hloss ⊢
  set total := atanhTerms bits _ _ _ _ _
  have hwide : (⟨total.low - mkRat 1 (Nat.pow 2 bits),
      total.high + mkRat 1 (Nat.pow 2 bits)⟩ : Interval).Near
      (artanh (1 / 3)) ((2 * (bits / 3 + 2 : Nat) ^ 2 + (bits / 3 + 2 : Nat) + 1) *
      (2 * (1 / 2 ^ bits))) := by
    have hclose := htotal.close
    refine ⟨⟨?_, ?_⟩, Rat.cast_nonneg (K := ℝ).1 ?_, by linarith, ?_⟩
    · rw [Rat.cast_sub, cast_digit]
      linarith [htotal.holds.low_le]
    · rw [Rat.cast_add, cast_digit]
      linarith [htotal.holds.le_high]
    · rw [Rat.cast_sub, cast_digit]
      nlinarith
    · rw [Rat.cast_sub, cast_digit]
      linarith
  have hshort := hwide.shorten bits
  rwa [hdigit, ← add_one_mul, add_assoc _ (1 : ℝ) 1, one_add_one_eq_two] at hshort

/-- The lower end for the logarithm of two is less than a millionth away, with as many bits as are
ever used. -/
theorem log_two_sub_le {bits : Nat} (hbits : 96 ≤ bits) :
    Real.log 2 - (ln2 bits).low ≤ 1 / 10 ^ 6 := by
  have hloss := loss_le hbits
  have hatanh := near_atanh_third hbits
  generalize (2 * (bits / 3 + 2 : Nat) ^ 2 + (bits / 3 + 2 : Nat) + 2) * (2 / 2 ^ bits : ℝ) = e
    at hloss hatanh
  have hcorners := Near.mul_le_corners (holds_point 2) zero_le_two hatanh.holds hatanh.nonneg
  have hholds : (corners (point 2) (atanh bits (mkRat 1 3))).Holds (2 * artanh (1 / 3)) := by
    exact_mod_cast (holds_point 2).corners hatanh.holds
  have hlow : (point 2).low = 2 := rfl
  rw [hlow, Rat.cast_ofNat] at hcorners
  have hatanh0 : (0 : ℝ) ≤ (atanh bits (mkRat 1 3)).low := by exact_mod_cast hatanh.nonneg
  have hnear : (corners (point 2) (atanh bits (mkRat 1 3))).Near (2 * artanh (1 / 3)) (2 * e) := by
    have hbegin := hatanh.close
    refine ⟨hholds, Rat.cast_nonneg (K := ℝ).1 (by linarith), ?_, ?_⟩
    · rw [← log_two_eq]
      linarith [Real.log_two_lt_d9]
    · generalize artanh (1 / 3) = z at *
      linarith
  have hclose := (hnear.shorten bits).close
  rw [← log_two_eq] at hclose
  show Real.log 2 - ((corners (point 2) (atanh bits (mkRat 1 3))).shorten bits).low ≤ 1 / 10 ^ 6
  linarith

end Interval

end EquationStudio
