import EquationStudio.Algebra.Computed
import EquationStudio.Proofs.Algebra.Real
import EquationStudio.Proofs.Numeric.Significant
import EquationStudio.Proofs.Synthesis.Laws

/-!
# The digits of constants

The digits that are found of a constant are those of the real number that it is, but for an error of
the last few bits, wherever some enclosure decides them (`Expr.digitsWithin_near`). So expressions
are converted to doubles as `SymbolicAlgebra.Measure` asks (`Expr.algebraMeasure`).
-/

namespace EquationStudio

/-- What is near to both ends of an interval is as near to every number in it. -/
theorem near_of_between {d l h v ε : ℝ} (hε : 0 < ε) (hε1 : ε < 1) (hl : |d - l| ≤ ε * |l|)
    (hh : |d - h| ≤ ε * |h|) (hlv : l ≤ v) (hvh : v ≤ h) : |d - v| ≤ ε * |v| := by
  obtain ⟨hl, hl'⟩ := abs_le.1 hl
  obtain ⟨hh, hh'⟩ := abs_le.1 hh
  obtain hv | hv := le_total 0 v
  · -- The upper end is not negative, so neither is what is near to it, nor the lower end.
    rw [abs_of_nonneg (hv.trans hvh)] at hh hh'
    have hl0 : 0 ≤ l := by
      by_contra hneg
      rw [abs_of_neg (not_le.1 hneg)] at hl'
      nlinarith
    rw [abs_of_nonneg hl0] at hl hl'
    rw [abs_of_nonneg hv]
    exact abs_le.2 ⟨by nlinarith, by nlinarith⟩
  · rw [abs_of_nonpos (hlv.trans hv)] at hl hl'
    have hh0 : h ≤ 0 := by
      by_contra hpos
      rw [abs_of_pos (not_le.1 hpos)] at hh
      nlinarith
    rw [abs_of_nonpos hh0] at hh hh'
    rw [abs_of_nonpos hv]
    exact abs_le.2 ⟨by nlinarith, by nlinarith⟩

namespace Expr

/-- What is kept of a rational is near to it. -/
theorem keptDigits_near (e : Expr) (q : ℚ) : |e.keptDigits q - q| ≤ |q| / 2 ^ 51 := by
  have hfirst : ∀ p, |p - q| ≤ |q| / 2 ^ 56 → |roundedTo 53 p - q| ≤ |q| / 2 ^ 51 := by
    intro p hp
    have hrounded := roundedTo_near (show 0 < 53 by decide) p
    have hsize := abs_sub_abs_le_abs_sub p q
    have htriangle := abs_sub_le (roundedTo 53 p) p q
    have hq := abs_nonneg q
    norm_num at hp hrounded ⊢
    linarith
  unfold keptDigits
  split
  · exact hfirst _ (cutTo_near (show 0 < 57 by decide) q)
  · exact hfirst _ (roundedTo_near (show 0 < 57 by decide) q)

/-- Some enclosure decides the digits that are kept: they are the same of both its ends. -/
def Decided (e : Expr) : Prop := (e.enclose? 512).isSome = true ∧
  ∃ k < 6, ∃ i, e.enclose? (2 ^ k * 96) = some i ∧ e.keptDigits i.low = e.keptDigits i.high

/-- With enclosures of more and more bits, the first that decides gives digits near to the
number. -/
theorem digitsWithin_near {e : Expr} : ∀ {fuel bits : Nat}, 96 ≤ bits →
    (∃ k < fuel, ∃ i, e.enclose? (2 ^ k * bits) = some i ∧
      e.keptDigits i.low = e.keptDigits i.high) →
    |(e.digitsWithin fuel bits : ℝ) - e.real| ≤ (2 ^ 51)⁻¹ * |e.real|
  | 0, _, _, ⟨_, hk, _⟩ => absurd hk (Nat.not_lt_zero _)
  | fuel + 1, bits, hbits, ⟨k, hk, i, hi, hsame⟩ => by
    -- An enclosure that does not decide is not the one that does.
    have hlater : (∀ j, e.enclose? bits = some j → e.keptDigits j.low ≠ e.keptDigits j.high) →
        |(e.digitsWithin fuel (2 * bits) : ℝ) - e.real| ≤ (2 ^ 51)⁻¹ * |e.real| := by
      intro hundecided
      cases k with
      | zero =>
        rw [pow_zero, Nat.one_mul] at hi
        exact absurd hsame (hundecided i hi)
      | succ k =>
        refine digitsWithin_near (by omega) ⟨k, by omega, i, ?_, hsame⟩
        rwa [← Nat.mul_assoc, ← Nat.pow_succ]
    rw [digitsWithin]
    cases henclosed : e.enclose? bits with
    | none => exact hlater fun j hj => by rw [henclosed] at hj; cases hj
    | some j =>
      dsimp only
      split
      · next hdecided =>
        have hholds := holds_enclose? hbits henclosed
        have hnear : ∀ q : ℚ, |(e.keptDigits q : ℝ) - q| ≤ (2 ^ 51)⁻¹ * |(q : ℝ)| := fun q => by
          rw [mul_comm, ← div_eq_mul_inv]
          exact_mod_cast e.keptDigits_near q
        have hhigh := hnear j.high
        rw [← hdecided] at hhigh
        exact near_of_between (by norm_num) (by norm_num) (hnear j.low) hhigh hholds.low_le
          hholds.le_high
      · next hundecided =>
        refine hlater fun j' hj' => ?_
        rw [henclosed] at hj'
        cases hj'
        exact hundecided

/-- A rational is the real number that it is. -/
theorem real_number (q : ℚ) : (number q).real = q := by
  rw [real]

/-- A real number of which the digits are found: that of a rational, or of a constant of which some
enclosure decides them. -/
def Measures (e : Expr) (v : ℝ) : Prop := v = e.real ∧ ((∃ q, e = number q) ∨ e.Decided)

/-- A constant is converted to a double near to the number that it is. -/
theorem algebra_toDouble_near (e : Expr) : ∃ d : ℚ, algebra.toDouble? e = some (.ofRat d) ∧
    ∀ v : ℝ, e.Measures v → |(d : ℝ) - v| ≤ |v| / 2 ^ 50 := by
  by_cases hnumber : ∃ q, e = number q
  · obtain ⟨q, rfl⟩ := hnumber
    refine ⟨roundedTo 53 q, rfl, ?_⟩
    rintro v ⟨rfl, -⟩
    have hnear := roundedTo_near (show 0 < 53 by decide) q
    have hcast : |(roundedTo 53 q : ℝ) - q| ≤ |(q : ℝ)| / 2 ^ 52 := by exact_mod_cast hnear
    rw [real_number]
    refine hcast.trans ?_
    gcongr
    · norm_num
    · norm_num
  · have htoDouble : algebra.toDouble? e =
        some (if (e.enclose? 512).isSome then .ofRat (e.digitsWithin 6 96)
        else .infinite false) := by
      cases e with
      | number q => exact absurd ⟨q, rfl⟩ hnumber
      | undefined | infinite | imaginary | symbol | power | product | sum => rfl
    by_cases hsome : (e.enclose? 512).isSome = true
    · refine ⟨e.digitsWithin 6 96, by rw [htoDouble, if_pos hsome], ?_⟩
      rintro v ⟨rfl, hrational | hdecided⟩
      · exact absurd hrational hnumber
      · refine (digitsWithin_near le_rfl hdecided.2).trans ?_
        rw [div_eq_mul_inv, mul_comm]
        gcongr
        · norm_num
        · norm_num
    · -- Where there is no enclosure at all, the constant is none that is known.
      refine ⟨Double.overflow, ?_, ?_⟩
      · rw [htoDouble, if_neg hsome]
        decide +kernel
      · rintro v ⟨rfl, hrational | hdecided⟩
        · exact absurd hrational hnumber
        · exact absurd hdecided.1 hsome

/-- The real numbers of which enough digits are found. -/
def algebraMeasure : algebra.Measure where
  Is := Measures
  is_rational q := ⟨(real_number q).symm, .inl ⟨q, rfl⟩⟩
  toDouble e _ _ _ _ := e.algebra_toDouble_near

end Expr

end EquationStudio
