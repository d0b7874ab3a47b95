import EquationStudio.Algebra.Enclosure
import Mathlib.Data.Rat.Floor
import Mathlib.Data.Real.Basic
import Mathlib.Tactic.Linarith
import Mathlib.Tactic.Positivity
import Mathlib.Tactic.Ring

/-!
# Interval arithmetic encloses

Each operation on intervals encloses what the operation on real numbers gives, for all numbers in
the intervals (`Interval.Holds`): ends are rounded outward, and a product is between the products of
the ends.
-/

namespace EquationStudio

namespace Interval

/-- A real number lies in an interval. -/
structure Holds (i : Interval) (x : ℝ) : Prop where
  low_le : i.low ≤ x
  le_high : x ≤ i.high

/-! ## Rounding -/

/-- Powers of two that are kept natural by moving them to the side where they are. -/
theorem two_pow_toNat_div (k : ℤ) : (2 : ℚ) ^ k.toNat / 2 ^ (-k).toNat = 2 ^ k := by
  obtain hk | hk := le_total 0 k
  · rw [Int.toNat_of_nonpos (neg_nonpos.2 hk), pow_zero, div_one, ← zpow_natCast,
      Int.toNat_of_nonneg hk]
  · rw [Int.toNat_of_nonpos hk, pow_zero, ← zpow_natCast, Int.toNat_of_nonneg (neg_nonneg.2 hk),
      zpow_neg, one_div, inv_inv]

/-- About how many binary digits a rational has before the point. -/
def magnitude (q : ℚ) : ℤ := (q.num.natAbs.log2 : ℤ) - q.den.log2

/-- A positive rational is within a factor of two of the power of two of its magnitude. -/
theorem magnitude_bounds {q : ℚ} (hq : 0 < q) :
    2 ^ magnitude q < 2 * q ∧ q < 2 * 2 ^ magnitude q := by
  have hnum : q.num.natAbs ≠ 0 := Int.natAbs_ne_zero.2 (Rat.num_pos.2 hq).ne'
  have hlow : (2 : ℚ) ^ q.num.natAbs.log2 ≤ q.num.natAbs := by exact_mod_cast Nat.log2_self_le hnum
  have hhigh : (q.num.natAbs : ℚ) < 2 ^ (q.num.natAbs.log2 + 1) := by
    exact_mod_cast Nat.lt_log2_self
  have hdenLow : (2 : ℚ) ^ q.den.log2 ≤ q.den := by exact_mod_cast Nat.log2_self_le q.den_ne_zero
  have hdenHigh : (q.den : ℚ) < 2 ^ (q.den.log2 + 1) := by exact_mod_cast Nat.lt_log2_self
  have hden : (0 : ℚ) < q.den := by exact_mod_cast q.den_pos
  have hquotient : q = q.num.natAbs / q.den := by
    rw [Nat.cast_natAbs, Int.cast_abs, abs_of_pos (by exact_mod_cast Rat.num_pos.2 hq),
      Rat.num_div_den]
  rw [magnitude, zpow_sub₀ two_ne_zero, zpow_natCast, zpow_natCast]
  generalize (q.num.natAbs.log2) = a at *
  generalize (q.den.log2) = b at *
  rw [pow_succ] at hhigh hdenHigh
  have ha : (0 : ℚ) < 2 ^ a := pow_pos two_pos a
  have hb : (0 : ℚ) < 2 ^ b := pow_pos two_pos b
  constructor
  · rw [hquotient, div_lt_iff₀ hb, mul_div_assoc', div_mul_eq_mul_div, lt_div_iff₀ hden]
    nlinarith
  · rw [hquotient, div_lt_iff₀ hden, mul_div_assoc', div_mul_eq_mul_div, lt_div_iff₀ hb]
    nlinarith

/-- How many binary digits a rational is shifted by so that about `bits` of them stand before the
point. -/
def shiftOf (bits : Nat) (q : ℚ) : ℤ := bits - magnitude q

/-- An end is rounded down to a multiple of a power of two. -/
theorem roundDown_eq (bits : Nat) (q : ℚ) :
    roundDown bits q = ⌊q * 2 ^ shiftOf bits q⌋ / 2 ^ shiftOf bits q := by
  unfold roundDown
  split
  · next h => rw [Rat.zero_of_num_zero h, zero_mul, Int.floor_zero, Int.cast_zero, zero_div]
  · dsimp only
    rw [show (bits : ℤ) - ((q.num.natAbs.log2 : ℤ) - q.den.log2) = shiftOf bits q from rfl]
    generalize shiftOf bits q = shift
    have hdown : (0 : ℚ) < 2 ^ (-shift).toNat := pow_pos two_pos _
    have hfloor : ⌊q * 2 ^ shift⌋ = q.num * (2 ^ shift.toNat : Nat) /
        (q.den * (2 ^ (-shift).toNat : Nat) : Nat) := by
      rw [← Rat.floor_intCast_div_natCast, ← two_pow_toNat_div]
      conv_lhs => rw [← Rat.num_div_den q]
      push_cast
      rw [div_mul_div_comm]
    rw [hfloor, Rat.mkRat_eq_div, ← two_pow_toNat_div shift,
      Int.fdiv_eq_ediv_of_nonneg _ (by positivity)]
    simp only [Nat.pow_eq]
    push_cast
    rw [div_div_eq_mul_div]

/-- Ends are rounded down. -/
theorem roundDown_le (bits : Nat) (q : ℚ) : roundDown bits q ≤ q := by
  rw [roundDown_eq, div_le_iff₀ (zpow_pos two_pos _)]
  exact Int.floor_le _

/-- Little is lost when a positive end is rounded down. -/
theorem sub_le_roundDown (bits : Nat) {q : ℚ} (hq : 0 ≤ q) :
    q - 2 * q / 2 ^ bits ≤ roundDown bits q := by
  obtain rfl | hq := hq.eq_or_lt
  · simp [roundDown]
  · have hunit : (0 : ℚ) < 2 ^ shiftOf bits q := zpow_pos two_pos _
    have hloss : (1 : ℚ) / 2 ^ shiftOf bits q ≤ 2 * q / 2 ^ bits := by
      rw [shiftOf, zpow_sub₀ two_ne_zero, zpow_natCast, one_div_div]
      exact div_le_div_of_nonneg_right (magnitude_bounds hq).1.le (pow_pos two_pos bits).le
    have hfloor := (Int.sub_one_lt_floor (q * 2 ^ shiftOf bits q)).le
    rw [roundDown_eq, le_div_iff₀ hunit]
    have hone : (1 : ℚ) / 2 ^ shiftOf bits q * 2 ^ shiftOf bits q = 1 := div_mul_cancel₀ _ hunit.ne'
    nlinarith

/-- Ends are rounded up. -/
theorem le_roundUp (bits : Nat) (q : ℚ) : q ≤ roundUp bits q := by
  have := roundDown_le bits (-q)
  rw [roundUp]
  linarith

/-! ## Operations -/

/-- A rational is enclosed by itself. -/
theorem holds_point (q : ℚ) : (point q).Holds q := ⟨le_rfl, le_rfl⟩

/-- The lesser of two rationals as a real number. -/
theorem cast_lesser (p q : ℚ) : ((lesser p q : ℚ) : ℝ) = min (p : ℝ) q := by
  rw [← Rat.cast_min, min_def]
  rfl

/-- The greater of two rationals as a real number. -/
theorem cast_greater (p q : ℚ) : ((greater p q : ℚ) : ℝ) = max (p : ℝ) q := by
  rw [← Rat.cast_max, max_def]
  rfl

/-- The least and the greatest product of the ends of two intervals. -/
def corners (a b : Interval) : Interval :=
  ⟨lesser (lesser (a.low * b.low) (a.low * b.high)) (lesser (a.high * b.low) (a.high * b.high)),
    greater (greater (a.low * b.low) (a.low * b.high)) (greater (a.high * b.low) (a.high * b.high))⟩

/-- A product lies between those of the ends of one factor. -/
theorem mul_between {low high x y : ℝ} (hlow : low ≤ x) (hhigh : x ≤ high) :
    min (low * y) (high * y) ≤ x * y ∧ x * y ≤ max (low * y) (high * y) := by
  obtain hy | hy := le_total 0 y
  · exact ⟨(min_le_left _ _).trans (mul_le_mul_of_nonneg_right hlow hy),
      (mul_le_mul_of_nonneg_right hhigh hy).trans (le_max_right _ _)⟩
  · exact ⟨(min_le_right _ _).trans (mul_le_mul_of_nonpos_right hhigh hy),
      (mul_le_mul_of_nonpos_right hlow hy).trans (le_max_left _ _)⟩

namespace Holds

variable {a b : Interval} {x y : ℝ} (bits : Nat)

/-- Ends are rounded outward. -/
theorem shorten (h : a.Holds x) : (a.shorten bits).Holds x where
  low_le := le_trans (by exact_mod_cast roundDown_le bits a.low) h.low_le
  le_high := le_trans h.le_high (by exact_mod_cast le_roundUp bits a.high)

/-- A sum is enclosed. -/
theorem add (ha : a.Holds x) (hb : b.Holds y) : (a.add bits b).Holds (x + y) := by
  refine Holds.shorten bits ⟨?_, ?_⟩
  · push_cast
    exact add_le_add ha.low_le hb.low_le
  · push_cast
    exact add_le_add ha.le_high hb.le_high

/-- A product is between the products of the ends. -/
theorem corners (ha : a.Holds x) (hb : b.Holds y) : (corners a b).Holds (x * y) := by
  have hx := mul_between (y := y) ha.low_le ha.le_high
  have hlow := mul_between (y := (a.low : ℝ)) hb.low_le hb.le_high
  have hhigh := mul_between (y := (a.high : ℝ)) hb.low_le hb.le_high
  simp only [mul_comm _ (a.low : ℝ), mul_comm _ (a.high : ℝ)] at hlow hhigh
  refine ⟨?_, ?_⟩
  · simp only [Interval.corners, cast_lesser, Rat.cast_mul]
    exact (min_le_min hlow.1 hhigh.1).trans hx.1
  · simp only [Interval.corners, cast_greater, Rat.cast_mul]
    exact hx.2.trans (max_le_max hlow.2 hhigh.2)

/-- A product is enclosed. -/
theorem mul (ha : a.Holds x) (hb : b.Holds y) : (a.mul bits b).Holds (x * y) :=
  (ha.corners hb).shorten bits

/-- An opposite is enclosed. -/
theorem neg (ha : a.Holds x) : a.neg.Holds (-x) := by
  refine ⟨?_, ?_⟩
  · rw [Interval.neg, Rat.cast_neg]
    exact neg_le_neg ha.le_high
  · rw [Interval.neg, Rat.cast_neg]
    exact neg_le_neg ha.low_le

/-- An inverse is enclosed, if it is known not to be that of zero. -/
theorem inverse? {bits : Nat} (ha : a.Holds x) {i : Interval}
    (h : a.inverse? bits = some i) : i.Holds x⁻¹ := by
  unfold Interval.inverse? at h
  split at h
  · next hsign =>
    cases h
    refine Holds.shorten bits ⟨?_, ?_⟩ <;> rw [Rat.cast_inv]
    · obtain hpos | hneg := hsign
      · have hx : 0 < x := lt_of_lt_of_le (by exact_mod_cast hpos) ha.low_le
        exact inv_anti₀ hx ha.le_high
      · have hhigh : (a.high : ℝ) < 0 := by exact_mod_cast hneg
        exact (inv_le_inv_of_neg hhigh (ha.le_high.trans_lt hhigh)).2 ha.le_high
    · obtain hpos | hneg := hsign
      · have hlow : (0 : ℝ) < a.low := by exact_mod_cast hpos
        exact inv_anti₀ hlow ha.low_le
      · have hx : x < 0 := ha.le_high.trans_lt (by exact_mod_cast hneg)
        exact (inv_le_inv_of_neg hx (ha.low_le.trans_lt hx)).2 ha.low_le
  · cases h

/-- A natural power is enclosed, if the fuel is enough for the bits of the exponent. -/
theorem pow (ha : a.Holds x) : ∀ {fuel n : Nat}, n < 2 ^ fuel → (a.pow bits fuel n).Holds (x ^ n)
  | 0, n, h => by
    rw [Nat.lt_one_iff.1 h, pow_zero]
    exact_mod_cast holds_point 1
  | fuel + 1, n, h => by
    rw [Interval.pow]
    split
    · next h0 =>
      rw [h0, pow_zero]
      exact_mod_cast holds_point 1
    · have hhalf : (a.pow bits fuel (n / 2)).Holds (x ^ (n / 2)) := pow ha (by omega)
      have hsquare := hhalf.mul bits hhalf
      rw [← pow_add] at hsquare
      dsimp only
      split
      · next heven => rwa [show n / 2 + n / 2 = n by omega] at hsquare
      · next hodd =>
        have hmul := hsquare.mul bits ha
        rwa [← pow_succ, show n / 2 + n / 2 + 1 = n by omega] at hmul

end Holds

/-! ## Narrow intervals -/

/-- A positive end stays positive when it is rounded down. -/
theorem roundDown_nonneg (bits : Nat) {q : ℚ} (hq : 0 ≤ q) : 0 ≤ roundDown bits q := by
  rw [roundDown_eq]
  have hunit : (0 : ℚ) < 2 ^ shiftOf bits q := zpow_pos two_pos _
  exact div_nonneg (Int.cast_nonneg (Int.floor_nonneg.2 (mul_nonneg hq hunit.le))) hunit.le

/-- An interval that holds a number between zero and one, and begins not far below it. -/
structure Near (i : Interval) (x e : ℝ) : Prop where
  holds : i.Holds x
  nonneg : 0 ≤ i.low
  le_one : x ≤ 1
  close : x - e ≤ i.low

/-- A rational between zero and one begins at itself. -/
theorem near_point {q : ℚ} (h0 : 0 ≤ q) (h1 : q ≤ 1) : (point q).Near q 0 :=
  ⟨holds_point q, h0, by exact_mod_cast h1, (sub_zero (q : ℝ)).le⟩

namespace Near

variable {a b : Interval} {x y e f : ℝ} (bits : Nat)

/-- Rounding loses less than a digit. -/
theorem shorten (h : a.Near x e) : (a.shorten bits).Near x (e + 2 / 2 ^ bits) := by
  refine ⟨h.holds.shorten bits, roundDown_nonneg bits h.nonneg, h.le_one, ?_⟩
  have hloss : ((a.low - 2 * a.low / 2 ^ bits : ℚ) : ℝ) ≤ (roundDown bits a.low : ℚ) :=
    Rat.cast_le.2 (sub_le_roundDown bits h.nonneg)
  push_cast at hloss
  have hdigit : 2 * (a.low : ℝ) / 2 ^ bits ≤ 2 / 2 ^ bits :=
    div_le_div_of_nonneg_right (by linarith [h.holds.low_le, h.le_one]) (by positivity)
  have hclose := h.close
  show x - (e + 2 / 2 ^ bits) ≤ ((roundDown bits a.low : ℚ) : ℝ)
  linarith

/-- The least product of ends that are not negative is that of the lower ends. -/
theorem mul_le_corners (hx : a.Holds x) (ha : 0 ≤ a.low) (hy : b.Holds y) (hb : 0 ≤ b.low) :
    (a.low * b.low : ℝ) ≤ (corners a b).low := by
  have ha' : (0 : ℝ) ≤ a.low := by exact_mod_cast ha
  have hb' : (0 : ℝ) ≤ b.low := by exact_mod_cast hb
  have haa := hx.low_le.trans hx.le_high
  have hbb := hy.low_le.trans hy.le_high
  simp only [corners, cast_lesser, Rat.cast_mul]
  refine le_min (le_min le_rfl ?_) (le_min ?_ ?_)
  · exact mul_le_mul_of_nonneg_left hbb ha'
  · exact mul_le_mul_of_nonneg_right haa hb'
  · exact mul_le_mul haa hbb hb' (ha'.trans haa)

/-- A product is narrow if the factors are. -/
theorem mul (ha : a.Near x e) (hb : b.Near y f) : (a.mul bits b).Near (x * y)
    (e + f + 2 / 2 ^ bits) := by
  have hcorners := mul_le_corners ha.holds ha.nonneg hb.holds hb.nonneg
  have ha0 : (0 : ℝ) ≤ a.low := by exact_mod_cast ha.nonneg
  have hb0 : (0 : ℝ) ≤ b.low := by exact_mod_cast hb.nonneg
  have hx0 : 0 ≤ x := ha0.trans ha.holds.low_le
  have hlow : (0 : ℝ) ≤ (corners a b).low := (mul_nonneg ha0 hb0).trans hcorners
  have hone : x * y ≤ 1 := mul_le_one₀ ha.le_one (hb0.trans hb.holds.low_le) hb.le_one
  refine Near.shorten bits ⟨ha.holds.corners hb.holds, by exact_mod_cast hlow, hone, ?_⟩
  have hleft : x * (y - b.low) ≤ 1 * f := by
    refine mul_le_mul ha.le_one ?_ (sub_nonneg.2 hb.holds.low_le) zero_le_one
    linarith [hb.close]
  have hright : (x - a.low) * b.low ≤ e * 1 := by
    refine mul_le_mul ?_ (hb.holds.low_le.trans hb.le_one) hb0 ?_
    · linarith [ha.close]
    · linarith [ha.close, ha.holds.low_le]
  show x * y - (e + f) ≤ ((corners a b).low : ℚ)
  linarith

/-- A sum is narrow if the terms are. -/
theorem add (ha : a.Near x e) (hb : b.Near y f) (hone : x + y ≤ 1) :
    (a.add bits b).Near (x + y) (e + f + 2 / 2 ^ bits) := by
  refine Near.shorten bits ⟨⟨?_, ?_⟩, add_nonneg ha.nonneg hb.nonneg, hone, ?_⟩ <;> push_cast
  · exact add_le_add ha.holds.low_le hb.holds.low_le
  · exact add_le_add ha.holds.le_high hb.holds.le_high
  · linarith [ha.close, hb.close]

end Near

end Interval

end EquationStudio
