import EquationStudio.Proofs.Algebra.Bound
import Mathlib.Algebra.Order.Ring.Pow
import Mathlib.Analysis.Complex.ExponentialBounds

/-!
# Logarithms and the digits of powers

A truncation takes less than one part in `2 ^ bits`, so a truncated number is lost to at most so
many such parts as it took truncations (`Truncated.Within`). A power by squaring takes at most five
for each unit of its exponent, and with sixty-four more bits than the exponent has, all of them
together leave half of the power. So its size is off by two at most, which is a small part of the
logarithm of a high power (`binaryLogarithm_near`), and the digits of a power of rationals are found
to fifty-eight bits (`digitsOfPower_near`).
-/

namespace EquationStudio

namespace Truncated

/-- What one truncation leaves at least. -/
def kept (bits : Nat) : ℚ := 1 - (2 ^ bits)⁻¹

/-- The truncated number is what so many truncations leave at least. -/
def Within (bits count : Nat) (x : Truncated) (r : ℚ) : Prop := kept bits ^ count * r ≤ x.value

variable {x y : Truncated} {r s : ℚ} {bits k l : Nat}

/-- A truncation leaves something. -/
theorem kept_nonneg (bits : Nat) : 0 ≤ kept bits := by
  have hle : ((2 : ℚ) ^ bits)⁻¹ ≤ 1 := inv_le_one_of_one_le₀ (one_le_pow₀ one_le_two)
  unfold kept
  linarith

/-- A truncation adds nothing. -/
theorem kept_le_one (bits : Nat) : kept bits ≤ 1 := by
  have hpos : (0 : ℚ) ≤ ((2 : ℚ) ^ bits)⁻¹ := by positivity
  unfold kept
  linarith

/-- More truncations may leave less. -/
theorem Within.mono (h : x.Within bits k r) (hr : 0 ≤ r) (hkl : k ≤ l) : x.Within bits l r := by
  refine le_trans ?_ h
  gcongr ?_ * r
  exact pow_le_pow_of_le_one (kept_nonneg bits) (kept_le_one bits) hkl

/-- Division of naturals loses less than one, which is a small part of a large quotient. -/
theorem kept_mul_le_div {m d : Nat} (hd : 0 < d) (h : 2 ^ bits * d ≤ m) :
    kept bits * m ≤ (m / d : Nat) * d := by
  have hless : (m : ℚ) < ((m / d : Nat) + 1) * d := by
    exact_mod_cast (Nat.div_lt_iff_lt_mul hd).1 (Nat.lt_succ_self _)
  have hpart : (d : ℚ) ≤ (2 ^ bits)⁻¹ * m := by
    rw [inv_mul_eq_div, le_div_iff₀ (by positivity), mul_comm]
    exact_mod_cast h
  unfold kept
  linarith

/-- One truncation. -/
theorem Within.truncate (h : x.Within bits k r) (hr : 0 ≤ r) :
    (x.truncate bits).Within bits (k + 1) r := by
  unfold Truncated.truncate
  dsimp only
  obtain hsmall | hlarge := Nat.eq_zero_or_pos (x.mantissa.log2 - bits)
  · rw [hsmall]
    simpa using h.mono hr k.le_succ
  · have hne : x.mantissa ≠ 0 := fun hzero => by simp [hzero] at hlarge
    have hle : 2 ^ bits * 2 ^ (x.mantissa.log2 - bits) ≤ x.mantissa := by
      rw [← Nat.pow_add, Nat.add_sub_cancel' (by omega)]
      exact Nat.log2_self_le hne
    have hdiv := kept_mul_le_div (Nat.two_pow_pos _) hle
    generalize x.mantissa.log2 - bits = extra at hdiv ⊢
    unfold Within value at *
    push_cast at hdiv
    calc kept bits ^ (k + 1) * r = kept bits * (kept bits ^ k * r) := by ring
      _ ≤ kept bits * (x.mantissa * 2 ^ x.exponent) := by
        gcongr
        exact kept_nonneg bits
      _ = kept bits * x.mantissa * 2 ^ x.exponent := by ring
      _ ≤ (x.mantissa / 2 ^ extra : Nat) * 2 ^ extra * 2 ^ x.exponent := by gcongr
      _ = (x.mantissa / 2 ^ extra : Nat) * 2 ^ (x.exponent + extra) := by
        rw [zpow_add₀ two_ne_zero, zpow_natCast]
        ring

/-- A product. -/
theorem Within.mul (hx : x.Within bits k r) (hy : y.Within bits l s) (hr : 0 ≤ r) (hs : 0 ≤ s) :
    (Truncated.mul bits x y).Within bits (k + l + 1) (r * s) := by
  refine Within.truncate ?_ (mul_nonneg hr hs)
  have hvalue : value ⟨x.mantissa * y.mantissa, x.exponent + y.exponent⟩ = x.value * y.value := by
    simp only [value, Nat.cast_mul, zpow_add₀ (two_ne_zero : (2 : ℚ) ≠ 0)]
    ring
  have hkept := kept_nonneg bits
  unfold Within at *
  rw [hvalue]
  calc kept bits ^ (k + l) * (r * s) = kept bits ^ k * r * (kept bits ^ l * s) := by ring
    _ ≤ x.value * y.value := mul_le_mul hx hy (by positivity) x.value_nonneg

/-- A rational from one on is truncated twice. -/
theorem within_ofRat {q : ℚ} (hq : 1 ≤ q) (bits : Nat) : (ofRat bits q).Within bits 2 q := by
  unfold ofRat
  dsimp only
  have hshift : bits ≤ bits + q.den.log2 + 1 := by omega
  generalize bits + q.den.log2 + 1 = shift at hshift
  have hden : (0 : ℚ) < q.den := by exact_mod_cast q.den_pos
  have hnum : (q.num.natAbs : ℚ) = q * q.den := by
    rw [Rat.mul_den_eq_num, Nat.cast_natAbs,
      abs_of_nonneg (Rat.num_nonneg.2 (zero_le_one.trans hq))]
  have hle : q.den ≤ q.num.natAbs := by
    have hle : (q.den : ℚ) ≤ q.num.natAbs := by
      rw [hnum]
      exact le_mul_of_one_le_left hden.le hq
    exact_mod_cast hle
  refine Within.truncate (k := 1) ?_ (zero_le_one.trans hq)
  have hdiv : kept bits * (q.num.natAbs * 2 ^ shift : Nat) ≤
      (q.num.natAbs * 2 ^ shift / q.den : Nat) * q.den := by
    refine kept_mul_le_div q.den_pos ?_
    rw [Nat.mul_comm]
    exact Nat.mul_le_mul hle (Nat.pow_le_pow_right (by decide) hshift)
  push_cast at hdiv
  rw [hnum] at hdiv
  unfold Within value
  rw [zpow_neg, zpow_natCast, ← div_eq_mul_inv, le_div_iff₀ (by positivity), pow_one]
  refine le_of_mul_le_mul_right (le_trans (le_of_eq ?_) hdiv) hden
  ring

/-- A power by squaring, if there is fuel for each bit of the exponent. -/
theorem Within.pow (h : x.Within bits 2 r) (hr : 0 ≤ r) :
    ∀ {fuel n : Nat}, n < 2 ^ fuel → (x.pow bits fuel n).Within bits (5 * n - 1) (r ^ n) := by
  have hone : (⟨1, 0⟩ : Truncated).Within bits 0 1 := by simp [Within, value]
  intro fuel
  induction fuel with
  | zero =>
    intro n hn
    obtain rfl : n = 0 := by omega
    rw [Truncated.pow, pow_zero]
    exact hone
  | succ fuel ih =>
    intro n hn
    rw [Truncated.pow]
    split
    · next hzero => rw [hzero, pow_zero]; exact hone
    · have hhalf := ih (n := n / 2) (by omega)
      have hsquare := hhalf.mul hhalf (pow_nonneg hr _) (pow_nonneg hr _)
      rw [← pow_add] at hsquare
      dsimp only
      split
      · next heven =>
        rw [show n / 2 + n / 2 = n by omega] at hsquare
        exact hsquare.mono (pow_nonneg hr n) (by omega)
      · next hodd =>
        have hnext := hsquare.mul h (pow_nonneg hr _) hr
        rw [← pow_succ, show n / 2 + n / 2 + 1 = n by omega] at hnext
        exact hnext.mono (pow_nonneg hr n) (by omega)

/-- All truncations of a power together leave half of it, with sixty-four more bits than the
exponent has. -/
theorem half_le_kept_pow (s : Nat) : (1 / 2 : ℚ) ≤ kept (s + 64) ^ (5 * 2 ^ s - 1) := by
  have hpart : ((2 : ℚ) ^ (s + 64))⁻¹ ≤ 1 := inv_le_one_of_one_le₀ (one_le_pow₀ one_le_two)
  have hbernoulli := one_add_mul_le_pow (a := -((2 : ℚ) ^ (s + 64))⁻¹) (by linarith) (5 * 2 ^ s - 1)
  have hcount : ((5 * 2 ^ s - 1 : Nat) : ℚ) ≤ 5 * 2 ^ s := by
    exact_mod_cast Nat.sub_le (5 * 2 ^ s) 1
  have hloss : ((5 * 2 ^ s - 1 : Nat) : ℚ) * (2 ^ (s + 64))⁻¹ ≤ 1 / 2 := by
    rw [← div_eq_mul_inv, div_le_iff₀ (by positivity), pow_add]
    have hpos : (0 : ℚ) < 2 ^ s := by positivity
    linarith
  unfold kept
  rw [sub_eq_add_neg 1 ((2 : ℚ) ^ (s + 64))⁻¹]
  linarith

/-- The size of digits that make up half of a number at least is the binary logarithm of the number,
but for two. -/
theorem abs_size_sub_logb_le (hbelow : x.Below r) (hhalf : 1 / 2 * r ≤ x.value) :
    |(x.size : ℝ) - Real.logb 2 r| ≤ 2 := by
  have hlow : (2 : ℚ) ^ x.size ≤ r := (two_zpow_log2_le hbelow.pos).trans hbelow.le
  have hhigh : r ≤ 2 ^ (x.size + 2) := by
    have hsize := hhalf.trans_lt x.lt_two_zpow_log2
    rw [show x.size + 2 = x.exponent + x.mantissa.log2 + 1 + 1 by rw [size]; ring,
      zpow_add_one₀ two_ne_zero]
    linarith
  have hr : (0 : ℝ) < r := by exact_mod_cast (zpow_pos two_pos _).trans_le hlow
  have hlogLow : (x.size : ℝ) ≤ Real.logb 2 r := by
    rw [Real.le_logb_iff_rpow_le one_lt_two hr, Real.rpow_intCast]
    have hcast := (Rat.cast_le (K := ℝ)).2 hlow
    rwa [Rat.cast_zpow, Rat.cast_ofNat] at hcast
  have hlogHigh : Real.logb 2 r ≤ (x.size + 2 : ℤ) := by
    rw [Real.logb_le_iff_le_rpow one_lt_two hr, Real.rpow_intCast]
    have hcast := (Rat.cast_le (K := ℝ)).2 hhigh
    rwa [Rat.cast_zpow, Rat.cast_ofNat] at hcast
  rw [Int.cast_add, Int.cast_ofNat] at hlogHigh
  exact abs_le.2 ⟨by linarith, by linarith⟩

end Truncated

/-! ## Logarithms -/

/-- What is taken for a power of ten is one. -/
theorem eq_pow_of_powerOfTen? : ∀ {fuel n k : Nat}, powerOfTen? fuel n = some k → n = 10 ^ k
  | 0, _, _, h => by cases h
  | fuel + 1, n, k, h => by
    rw [powerOfTen?] at h
    split at h
    · next hone =>
      cases h
      exact hone
    · split at h
      · next hten =>
        obtain ⟨l, hl, rfl⟩ := Option.map_eq_some_iff.1 h
        rw [Nat.pow_succ, ← eq_pow_of_powerOfTen? hl]
        omega
      · cases h

/-- A quotient of numbers of which sixty bits are right. -/
theorem div_near {x y u v : ℝ} (hu : 0 < u) (hv : 0 < v) (hx : |x - u| ≤ u / 2 ^ 60)
    (hy : |y - v| ≤ v / 2 ^ 60) : |x / y - u / v| ≤ u / v / 2 ^ 58 := by
  have hlow : v / 2 ≤ y := by linarith [(abs_le.1 hy).1]
  have hpos : 0 < y := (half_pos hv).trans_le hlow
  have hcross : |x * v - y * u| ≤ u * v / 2 ^ 59 := by
    have hsplit : x * v - y * u = (x - u) * v - (y - v) * u := by ring
    calc |x * v - y * u| ≤ |x - u| * v + |y - v| * u := by
          rw [hsplit]
          refine (abs_sub _ _).trans (le_of_eq ?_)
          rw [abs_mul, abs_mul, abs_of_pos hu, abs_of_pos hv]
      _ ≤ u / 2 ^ 60 * v + v / 2 ^ 60 * u := by gcongr
      _ = u * v / 2 ^ 59 := by ring
  rw [div_sub_div _ _ hpos.ne' hv.ne', abs_div, abs_of_pos (mul_pos hpos hv), div_div,
    div_le_div_iff₀ (mul_pos hpos hv) (by positivity)]
  calc |x * v - y * u| * (v * 2 ^ 58) ≤ u * v / 2 ^ 59 * (v * 2 ^ 58) := by gcongr
    _ = u * (v / 2 * v) := by ring
    _ ≤ u * (y * v) := by gcongr

section
variable {a : ℚ} (ha : 1 < a)
include ha

/-- A rational above one is squared until its binary logarithm is large. -/
theorem two_pow_le_logb : (2 : ℝ) ^ 62 ≤ 2 ^ squarings a * Real.logb 2 a := by
  have hpos : (0 : ℚ) < a := zero_lt_one.trans ha
  have hden : 0 < a.den := a.den_pos
  have hnum : (a.num.natAbs : ℚ) = a * a.den := by
    rw [Rat.mul_den_eq_num, Nat.cast_natAbs, abs_of_nonneg (Rat.num_nonneg.2 hpos.le)]
  have hlt : a.den < a.num.natAbs := by
    have hlt : (a.den : ℚ) < a.num.natAbs := by
      rw [hnum]
      exact lt_mul_of_one_lt_left (by exact_mod_cast hden) ha
    exact_mod_cast hlt
  -- The logarithm is no less than the part by which the numerator exceeds the denominator.
  have hlog : (a.num.natAbs - a.den : ℝ) / a.num.natAbs ≤ Real.logb 2 a := by
    have hreal : (a : ℝ) = a.num.natAbs / a.den := by
      rw [eq_div_iff (by positivity)]
      exact_mod_cast hnum.symm
    have hle := Real.one_sub_inv_le_log_of_pos (x := (a : ℝ)) (by exact_mod_cast hpos)
    have hnat : Real.log a ≤ Real.logb 2 a := by
      rw [Real.logb, le_div_iff₀ (Real.log_pos one_lt_two)]
      have hone : Real.log 2 ≤ 1 := by linarith [Real.log_two_lt_d9]
      have hnonneg : 0 ≤ Real.log a := Real.log_nonneg (by exact_mod_cast ha.le)
      exact mul_le_of_le_one_right hnonneg hone
    refine le_trans (le_of_eq ?_) (hle.trans hnat)
    rw [hreal, inv_div, sub_div, div_self (by positivity)]
  unfold squarings
  generalize a.num.natAbs = n at hlt hlog ⊢
  generalize a.den = d at hden hlt hlog ⊢
  have hpositive : 0 < n - d := Nat.sub_pos_of_lt hlt
  have hlow : 2 ^ (n - d).log2 ≤ n - d := Nat.log2_self_le hpositive.ne'
  have hsize : (n - d).log2 ≤ n.log2 :=
    (Nat.le_log2 (hden.trans hlt).ne').2 (hlow.trans (Nat.sub_le n d))
  have hhigh : n < 2 ^ (n.log2 + 1) := Nat.lt_log2_self
  have hpower : 2 ^ 62 * n ≤ 2 ^ (63 + n.log2 - (n - d).log2) * (n - d) := by
    calc 2 ^ 62 * n ≤ 2 ^ 62 * 2 ^ (n.log2 + 1) := Nat.mul_le_mul_left _ hhigh.le
      _ = 2 ^ (63 + n.log2 - (n - d).log2) * 2 ^ (n - d).log2 := by
        rw [← Nat.pow_add, ← Nat.pow_add]
        congr 1
        omega
      _ ≤ 2 ^ (63 + n.log2 - (n - d).log2) * (n - d) := Nat.mul_le_mul_left _ hlow
  have hn : (0 : ℝ) < n := by exact_mod_cast hden.trans hlt
  have hcast : (2 ^ 62 * n : ℝ) ≤ 2 ^ (63 + n.log2 - (n - d).log2) * (n - d) := by
    rw [← Nat.cast_sub hlt.le]
    exact_mod_cast hpower
  calc (2 : ℝ) ^ 62 ≤ 2 ^ (63 + n.log2 - (n - d).log2) * ((n - d) / n) := by
        rw [← mul_div_assoc, le_div_iff₀ hn]
        exact hcast
    _ ≤ 2 ^ (63 + n.log2 - (n - d).log2) * Real.logb 2 a := by gcongr

/-- Sixty bits of a binary logarithm are right. -/
theorem binaryLogarithm_near :
    |(binaryLogarithm a : ℝ) - Real.logb 2 a| ≤ Real.logb 2 a / 2 ^ 60 := by
  have hlarge := two_pow_le_logb ha
  have hpos : (0 : ℝ) < a := by exact_mod_cast zero_lt_one.trans ha
  have hfuel : 2 ^ squarings a < 2 ^ (squarings a + 1) := Nat.pow_lt_pow_succ (by decide)
  have hbelow := (Truncated.below_ofRat ha.le (squarings a + 64)).pow (squarings a + 64) hfuel
  have hwithin :=
    (Truncated.within_ofRat ha.le (squarings a + 64)).pow (zero_le_one.trans ha.le) hfuel
  have hkept := Truncated.half_le_kept_pow (squarings a)
  unfold binaryLogarithm
  dsimp only
  rw [Nat.pow_eq]
  generalize (Truncated.ofRat (squarings a + 64) a).pow _ _ (2 ^ squarings a) = x
    at hbelow hwithin ⊢
  generalize squarings a = s at *
  have hhalf : 1 / 2 * a ^ 2 ^ s ≤ x.value :=
    (mul_le_mul_of_nonneg_right hkept (by positivity)).trans hwithin
  have hsize := Truncated.abs_size_sub_logb_le hbelow hhalf
  rw [Rat.cast_pow, Real.logb_pow, Nat.cast_pow, Nat.cast_ofNat] at hsize
  have hunit : (0 : ℝ) < 2 ^ s := by positivity
  have hread : ((mkRat x.size (2 ^ s) : ℚ) : ℝ) = x.size / 2 ^ s := by
    rw [Rat.mkRat_eq_div]
    push_cast
    rfl
  rw [hread, div_sub' hunit.ne', abs_div, abs_of_pos hunit, div_le_div_iff₀ hunit (by positivity)]
  calc |(x.size : ℝ) - 2 ^ s * Real.logb 2 a| * 2 ^ 60 ≤ 2 * 2 ^ 60 := by gcongr
    _ ≤ 2 ^ s * Real.logb 2 a := by linarith
    _ = Real.logb 2 a * 2 ^ s := mul_comm _ _

/-- Fifty-eight bits of a decimal logarithm are right. -/
theorem decimalLogarithm_near :
    |(decimalLogarithm a : ℝ) - Real.logb 10 a| ≤ Real.logb 10 a / 2 ^ 58 := by
  have hpos : 0 < Real.logb 10 a := Real.logb_pos (by norm_num) (by exact_mod_cast ha)
  unfold decimalLogarithm
  dsimp only
  split
  · next k hknown =>
    split at hknown
    · next hden =>
      have hnum : (a : ℝ) = 10 ^ k := by
        have hnonneg : 0 ≤ a.num := Rat.num_nonneg.2 (zero_le_one.trans ha.le)
        rw [← Rat.coe_int_num_of_den_eq_one hden, ← Int.natAbs_of_nonneg hnonneg,
          eq_pow_of_powerOfTen? hknown]
        push_cast
        rfl
      rw [hnum, Real.logb_pow, Real.logb_self_eq_one (by norm_num), mul_one,
        Rat.cast_natCast, sub_self, abs_zero]
      positivity
    · cases hknown
  · have hten : (1 : ℚ) < 10 := by norm_num
    have hbase : Real.logb 10 a = Real.logb 2 a / Real.logb 2 (10 : ℚ) := by
      rw [Rat.cast_ofNat, Real.logb, Real.logb, Real.logb,
        div_div_div_cancel_right₀ (Real.log_pos one_lt_two).ne']
    rw [Rat.cast_div, hbase]
    exact div_near (Real.logb_pos one_lt_two (by exact_mod_cast ha))
      (Real.logb_pos one_lt_two (by exact_mod_cast hten)) (binaryLogarithm_near ha)
      (binaryLogarithm_near hten)

end

/-- The digits of a power of rationals are right to fifty-eight bits. -/
theorem digitsOfPower_near {q : ℚ} (hq : q ≠ 0) (r : ℚ) :
    |(digitsOfPower q r : ℝ) - r * Real.logb 10 (|(q : ℝ)|)| ≤
      |r * Real.logb 10 (|(q : ℝ)|)| / 2 ^ 58 := by
  obtain ⟨hone, hlog⟩ := magnitudeAboveOne_spec hq
  have hnear : |((if magnitudeAboveOne q = 1 then 0
      else decimalLogarithm (magnitudeAboveOne q) : ℚ) : ℝ) -
      Real.logb 10 (magnitudeAboveOne q)| ≤ |Real.logb 10 (magnitudeAboveOne q)| / 2 ^ 58 := by
    split
    · next h => simp [h]
    · next h =>
      have hlt := hone.lt_of_ne' h
      rw [abs_of_pos (Real.logb_pos (by norm_num) (by exact_mod_cast hlt))]
      exact decimalLogarithm_near hlt
  unfold digitsOfPower
  dsimp only
  rw [hlog]
  generalize Real.logb 10 (magnitudeAboveOne q) = l at hnear ⊢
  generalize (if magnitudeAboveOne q = 1 then (0 : ℚ) else decimalLogarithm (magnitudeAboveOne q)) =
    l' at hnear ⊢
  rw [Rat.cast_mul, ← mul_sub, abs_mul, abs_mul, mul_div_assoc]
  refine mul_le_mul_of_nonneg_left ?_ (abs_nonneg _)
  split
  · rwa [Rat.cast_neg, neg_sub_neg, abs_sub_comm, abs_neg]
  · exact hnear

end EquationStudio
