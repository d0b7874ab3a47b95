import EquationStudio.Proofs.Numeric.Nearest
import Mathlib.Data.Real.Basic

/-!
# Which numbers are rounded to finite doubles

`Double.overflow` lies half a step above the largest double. A rational of smaller magnitude is
rounded to the finite double nearest to it, and any other to the infinity of its sign
(`Double.roundsTo_ofRat`).
-/

namespace EquationStudio

/-- A quotient has a finite code exactly if it is below the middle between the last finite magnitude
and the next one. In the middle the code is that of the next magnitude, which is even. -/
theorem codeOfRatio_lt_iff (num : Nat) {den : Nat} (hden : 0 < den) :
    codeOfRatio num den < finiteCodes ↔
    2 * (num * 2 ^ stepBits) < (codeSteps (finiteCodes - 1) + codeSteps finiteCodes) * den := by
  have hnearest := codeOfRatio_nearest num hden
  have hmono : ∀ {c c' : Nat}, c ≤ c' → codeSteps c * den ≤ codeSteps c' * den := fun h =>
    Nat.mul_le_mul_right den (strictMono_codeSteps.monotone h)
  have hstep : codeSteps (finiteCodes - 1) * den < codeSteps finiteCodes * den :=
    Nat.mul_lt_mul_of_pos_right (strictMono_codeSteps (by decide)) hden
  rw [Nat.add_mul]
  generalize codeOfRatio num den = code at hnearest ⊢
  obtain ⟨hlast, -⟩ := hnearest (finiteCodes - 1)
  obtain ⟨hnext, heven⟩ := hnearest finiteCodes
  generalize num * 2 ^ stepBits = scaled at hlast hnext heven ⊢
  constructor
  · intro hcode
    have hle : codeSteps code * den ≤ codeSteps (finiteCodes - 1) * den := hmono (by omega)
    by_contra hge
    -- The next magnitude would be as near, and the code even: not the last finite one, which is
    -- nearer then.
    have htie : |(codeSteps code * den : Int) - scaled| =
        |(codeSteps finiteCodes * den : Int) - scaled| := by
      refine le_antisymm hnext ?_
      rw [abs_of_nonpos (a := (codeSteps code * den : Int) - scaled) (by omega)]
      refine abs_le.2 ⟨by omega, by omega⟩
    have hcodeEven := heven (by omega) htie
    have hlt : codeSteps code * den < codeSteps (finiteCodes - 1) * den := by
      refine Nat.mul_lt_mul_of_pos_right (strictMono_codeSteps ?_) hden
      have hodd : (finiteCodes - 1) % 2 = 1 := by decide
      omega
    have hnear : |(codeSteps (finiteCodes - 1) * den : Int) - scaled| <
        (scaled : Int) - codeSteps code * den :=
      abs_lt.2 ⟨by omega, by omega⟩
    rw [abs_of_nonpos (by omega)] at hlast
    omega
  · intro hlt
    by_contra hge
    have hle : codeSteps finiteCodes * den ≤ codeSteps code * den := hmono (by omega)
    have hfar : |(codeSteps (finiteCodes - 1) * den : Int) - scaled| <
        (codeSteps code * den : Int) - scaled :=
      abs_lt.2 ⟨by omega, by omega⟩
    have hself := le_abs_self ((codeSteps code * den : Int) - scaled)
    omega

/-- The middle between the largest finite double and the next power of two. -/
def Double.overflow : ℚ := 2 ^ 1024 - 2 ^ 970

/-- The middle between the last finite magnitude and the next, in steps. -/
theorem codeSteps_middle : ((codeSteps (finiteCodes - 1) + codeSteps finiteCodes : Nat) : ℚ) =
    2 * (Double.overflow * 2 ^ stepBits) := by
  have hcode : finiteCodes - 1 = (2045 + 1) * 2 ^ 52 + 4503599627370495 := by decide
  have hcode' : finiteCodes = (2046 + 1) * 2 ^ 52 + 0 := by decide
  have hunit : (2 : ℚ) ^ 2045 = 2 ^ 970 * 2 ^ stepBits * 2 ^ 1 := by
    rw [← pow_add, ← pow_add, show 970 + stepBits + 1 = 2045 from rfl]
  have hunit' : (2 : ℚ) ^ 2046 = 2 ^ 970 * 2 ^ stepBits * 2 ^ 2 := by
    rw [← pow_add, ← pow_add, show 970 + stepBits + 2 = 2046 from rfl]
  have hpower : (2 : ℚ) ^ 1024 = 2 ^ 54 * 2 ^ 970 := by rw [← pow_add]
  rw [hcode, codeSteps_normal 2045 (by decide), hcode', codeSteps_normal 2046 (by decide),
    Double.overflow, hpower]
  simp only [Nat.cast_add, Nat.cast_mul, Nat.cast_pow, Nat.cast_ofNat, Nat.cast_zero]
  rw [hunit, hunit']
  generalize (2 : ℚ) ^ 970 = a
  generalize (2 : ℚ) ^ stepBits = b
  ring

/-- What a real number is rounded to: the double nearest to it if it is in range, and the infinity
of its sign if it is not. -/
inductive Double.RoundsTo : Double → ℝ → Prop
  | finite {x : FiniteDouble} {v : ℝ} (inRange : |v| < Double.overflow)
      (nearest : ∀ y : FiniteDouble, |x.toRat - v| ≤ |y.toRat - v|) : RoundsTo (.finite x) v
  | infinite {negative : Bool} {v : ℝ} (beyond : Double.overflow ≤ |v|)
      (sign : negative = true ↔ v < 0) :
      RoundsTo (.infinite negative) v

namespace Double

/-- The code of a rational is finite exactly if the rational is in range. -/
theorem codeOfRatio_lt_iff_overflow (q : ℚ) :
    codeOfRatio q.num.natAbs q.den < finiteCodes ↔ |q| < overflow := by
  have hden : (0 : ℚ) < q.den := by exact_mod_cast q.den_pos
  have hunit : (0 : ℚ) < 2 ^ stepBits := pow_pos two_pos stepBits
  have hnum : |q| * q.den = q.num.natAbs := by
    rw [← abs_of_pos hden, ← abs_mul, Rat.mul_den_eq_num, Nat.cast_natAbs, Int.cast_abs]
  rw [codeOfRatio_lt_iff _ q.den_pos, ← Nat.cast_lt (α := ℚ),
    Nat.cast_mul (codeSteps _ + codeSteps _), codeSteps_middle, Nat.cast_mul, Nat.cast_mul,
    Nat.cast_pow, Nat.cast_ofNat, ← hnum]
  generalize (2 : ℚ) ^ stepBits = unit at hunit ⊢
  rw [show 2 * (|q| * q.den * unit) = 2 * unit * q.den * |q| by ring,
    show 2 * (overflow * unit) * q.den = 2 * unit * q.den * overflow by ring]
  exact mul_lt_mul_iff_of_pos_left (mul_pos (mul_pos two_pos hunit) hden)

/-- What a rational is rounded to by its code. -/
theorem ofRat_eq (q : ℚ) : (∃ x : FiniteDouble, ofRat q = .finite x ∧
    |q| < overflow ∧ x.IsNearest q) ∨
    ofRat q = .infinite (q.num < 0) ∧ overflow ≤ |q| := by
  by_cases hcode : codeOfRatio q.num.natAbs q.den < finiteCodes
  · refine .inl ⟨⟨decide (q.num < 0), ⟨_, hcode⟩⟩, ?_, (codeOfRatio_lt_iff_overflow q).1 hcode, ?_⟩
    · rw [ofRat, ofCode, dif_pos hcode]
    · exact FiniteDouble.isNearest_of_code rfl rfl
  · refine .inr ⟨by rw [ofRat, ofCode, dif_neg hcode], not_lt.1 fun h => hcode ?_⟩
    exact (codeOfRatio_lt_iff_overflow q).2 h

/-- A rational is rounded to its double. -/
theorem roundsTo_ofRat (q : ℚ) : (ofRat q).RoundsTo q := by
  obtain ⟨x, hx, hrange, hnearest⟩ | ⟨hx, hbeyond⟩ := ofRat_eq q
  · rw [hx]
    exact .finite (by exact_mod_cast hrange) fun y => by exact_mod_cast hnearest.nearest y
  · rw [hx]
    refine .infinite (by exact_mod_cast hbeyond) ?_
    rw [decide_eq_true_eq, Rat.num_neg, Rat.cast_lt_zero]

namespace RoundsTo

variable {v : ℝ} {x : Double}

/-- Nothing is rounded to the undefined value. -/
theorem ne_nan (h : x.RoundsTo v) : x ≠ .nan := by
  cases h <;> nofun

/-- A number is rounded to an infinity exactly if it is out of range. -/
theorem infinite_iff (h : x.RoundsTo v) :
    (∃ negative, x = .infinite negative) ↔ overflow ≤ |v| := by
  cases h with
  | finite inRange => exact iff_of_false nofun inRange.not_ge
  | infinite beyond => exact iff_of_true ⟨_, rfl⟩ beyond

end RoundsTo

end Double

end EquationStudio
