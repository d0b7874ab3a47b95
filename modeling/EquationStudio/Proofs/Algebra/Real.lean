import EquationStudio.Proofs.Algebra.Exponential

/-!
# The real number that an expression is

A constant real expression is a real number (`Expr.real`), and an enclosure that is found for it,
with as many bits as are ever used, encloses that number (`Expr.holds_enclose?`).
-/

namespace EquationStudio

namespace Expr

mutual

/-- The real number that a constant real expression is. -/
noncomputable def real : Expr → ℝ
  | number q => q
  | power b e => real b ^ real e
  | product fs => realProduct fs
  | sum ts => realSum ts
  | undefined | infinite | imaginary | symbol _ => 0

/-- The product of the real numbers that expressions are. -/
noncomputable def realProduct : List Expr → ℝ
  | [] => 1
  | e :: es => real e * realProduct es

/-- The sum of the real numbers that expressions are. -/
noncomputable def realSum : List Expr → ℝ
  | [] => 0
  | e :: es => real e + realSum es

end

variable {bits : Nat}

/-- A whole power that is enclosed. -/
theorem holds_wholePower (hbits : 96 ≤ bits) {a i : Interval} {x : ℝ} (ha : a.Holds x)
    {q : ℚ} (hq : q.den = 1) (h : (do
      let base ← if q.num < 0 then a.inverse? bits else some a
      base.natPow? bits q.num.natAbs) = some i) : i.Holds (x ^ (q : ℝ)) := by
  have hcast : ((q.num : ℤ) : ℚ) = q := Rat.coe_int_num_of_den_eq_one hq
  rw [← hcast, Rat.cast_intCast, Real.rpow_intCast]
  dsimp only at h
  split at h
  · next hneg =>
    obtain ⟨base, hbase, h⟩ := Option.bind_eq_some_iff.1 h
    have hpower := Interval.holds_natPow? hbits (ha.inverse? hbase) h
    rwa [← zpow_natCast, Int.ofNat_natAbs_of_nonpos hneg.le, inv_zpow, zpow_neg, inv_inv] at hpower
  · next hneg =>
    have hpower := Interval.holds_natPow? hbits ha h
    rwa [← zpow_natCast, Int.natAbs_of_nonneg (not_lt.1 hneg)] at hpower

/-- A power by way of the logarithm. -/
theorem holds_realPower (hbits : 96 ≤ bits) {a b i : Interval} {x y : ℝ}
    (ha : a.Holds x) (hb : b.Holds y)
    (h : (do Interval.exp? bits (.mul bits b (← a.ln? bits))) = some i) : i.Holds (x ^ y) := by
  obtain ⟨l, hl, h⟩ := Option.bind_eq_some_iff.1 h
  obtain ⟨hx, hlog⟩ := Interval.holds_ln? ha hl
  rw [Real.rpow_def_of_pos hx, mul_comm]
  exact Interval.holds_exp? hbits (hb.mul bits hlog) h

/-- An enclosure of a power with an exponent that is no number. -/
theorem enclose?_power {b e : Expr} (he : ∀ q, e ≠ number q) : (power b e).enclose? bits = (do
    let base ← b.enclose? bits
    let exponent ← e.enclose? bits
    Interval.exp? bits (.mul bits exponent (← base.ln? bits))) := by
  rw [enclose?]
  exact fun q hq => he q hq

mutual

/-- An enclosure that is found encloses the real number that an expression is. -/
theorem holds_enclose? (hbits : 96 ≤ bits) :
    ∀ {e : Expr} {i : Interval}, e.enclose? bits = some i → i.Holds e.real
  | number q, i, h => by
    rw [enclose?] at h
    cases h
    rw [real]
    exact (Interval.holds_point q).shorten bits
  | sum ts, i, h => by
    rw [enclose?] at h
    rw [real]
    exact holds_encloseSum? hbits h
  | product fs, i, h => by
    rw [enclose?] at h
    rw [real]
    exact holds_encloseProduct? hbits h
  | power b e, i, h => by
    rw [real]
    by_cases hnumber : ∃ q, e = number q
    · obtain ⟨q, hq⟩ := hnumber
      rw [hq, enclose?] at h
      rw [hq, real]
      obtain ⟨base, hbase, h⟩ := Option.bind_eq_some_iff.1 h
      have hb := holds_enclose? hbits hbase
      split at h
      · next hden => exact holds_wholePower hbits hb hden h
      · exact holds_realPower hbits hb (Interval.holds_point q) h
    · rw [enclose?_power (not_exists.1 hnumber)] at h
      obtain ⟨base, hbase, h⟩ := Option.bind_eq_some_iff.1 h
      obtain ⟨exponent, hexponent, h⟩ := Option.bind_eq_some_iff.1 h
      exact holds_realPower hbits (holds_enclose? hbits hbase) (holds_enclose? hbits hexponent) h
  | undefined, i, h | infinite, i, h | imaginary, i, h | symbol _, i, h => by
    rw [enclose?.eq_def] at h
    cases h

/-- An enclosure of a sum encloses the sum of the real numbers. -/
theorem holds_encloseSum? (hbits : 96 ≤ bits) :
    ∀ {ts : List Expr} {i : Interval}, encloseSum? bits ts = some i →
    i.Holds (realSum ts)
  | [], i, h => by
    rw [encloseSum?] at h
    cases h
    rw [realSum]
    exact_mod_cast Interval.holds_point 0
  | t :: ts, i, h => by
    rw [encloseSum?] at h
    obtain ⟨a, ha, h⟩ := Option.bind_eq_some_iff.1 h
    obtain ⟨b, hb, h⟩ := Option.bind_eq_some_iff.1 h
    cases h
    rw [realSum]
    exact (holds_enclose? hbits ha).add bits (holds_encloseSum? hbits hb)

/-- An enclosure of a product encloses the product of the real numbers. -/
theorem holds_encloseProduct? (hbits : 96 ≤ bits) : ∀ {fs : List Expr} {i : Interval},
    encloseProduct? bits fs = some i → i.Holds (realProduct fs)
  | [], i, h => by
    rw [encloseProduct?] at h
    cases h
    rw [realProduct]
    exact_mod_cast Interval.holds_point 1
  | f :: fs, i, h => by
    rw [encloseProduct?] at h
    obtain ⟨a, ha, h⟩ := Option.bind_eq_some_iff.1 h
    obtain ⟨b, hb, h⟩ := Option.bind_eq_some_iff.1 h
    cases h
    rw [realProduct]
    exact (holds_enclose? hbits ha).mul bits (holds_encloseProduct? hbits hb)

end

end Expr

end EquationStudio
