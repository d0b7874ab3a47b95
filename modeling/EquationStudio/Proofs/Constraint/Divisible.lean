import EquationStudio.Proofs.Constraint.Conflict
import EquationStudio.Proofs.Numeric.Code
import EquationStudio.Proofs.Numeric.Nearest

/-!
# Divisibility of integers that are converted to doubles

Divisibility is tested on the doubles that the value and the divisor are converted to. The double of
an integer is a whole number: the integer itself up to `2 ^ 53`, and an even one from there on
(`FiniteDouble.exists_whole`). Of whole doubles the remainder is a whole number too, so that the
tolerance admits none but zero (`FiniteDouble.remainder_le_tolerance`). So the test is exact up to
`2 ^ 53`, and beyond it is the test of the rounded integers (`Constraint.divisible_of_rounded`):
every larger integer is a multiple of two.
-/

namespace EquationStudio

/-! ## Integers as doubles -/

/-- A natural below `2 ^ 53` is rounded in units of which each step of the integers is a multiple,
and a natural from there on in larger ones. -/
theorem shift_le_iff {n : Nat} (bits : Nat) : (n * 2 ^ bits).log2 - 52 ≤ bits ↔ n < 2 ^ 53 := by
  rcases Nat.eq_zero_or_pos n with rfl | hpos
  · simp
  · have hne : n * 2 ^ bits ≠ 0 := Nat.mul_ne_zero hpos.ne' (Nat.two_pow_pos bits).ne'
    rw [← Nat.mul_lt_mul_right (Nat.two_pow_pos bits), ← Nat.pow_add, ← Nat.log2_lt hne]
    omega

/-- The magnitude nearest to a natural is a whole number: the natural itself up to `2 ^ 53`, and an
even one from there on. -/
theorem exists_codeSteps_whole (n : Nat) : ∃ m, codeSteps (codeOfRatio n 1) = m * 2 ^ stepBits ∧
    (n ≤ 2 ^ 53 → m = n) ∧ (2 ^ 53 ≤ n → 2 ∣ m) := by
  unfold codeOfRatio
  simp only [Nat.pow_eq]
  generalize stepBits = bits
  obtain ⟨hlow, hhigh⟩ := roundQuotient_size (n * 2 ^ bits) 1
  have hgrid := codeSteps_grid (hlow.imp And.right id) hhigh
  have hsize := shift_le_iff (n := n) bits
  have hedge : n = 2 ^ 53 → (n * 2 ^ bits).log2 - 52 = bits + 1 := by
    rintro rfl
    rw [← Nat.pow_add, Nat.log2_two_pow]
    omega
  simp only [Nat.div_one, Nat.one_mul] at hgrid ⊢
  rw [hgrid]
  generalize (n * 2 ^ bits).log2 - 52 = shift at hsize hedge ⊢
  have hexact : ∀ m, n * 2 ^ bits = m * 2 ^ shift →
      roundQuotient (n * 2 ^ bits) (2 ^ shift) * 2 ^ shift = n * 2 ^ bits := fun m h => by
    rw [h, roundQuotient_mul (Nat.two_pow_pos shift)]
  by_cases hshift : shift ≤ bits
  · refine ⟨n, hexact (n * 2 ^ (bits - shift)) ?_, fun _ => rfl,
      fun h => absurd (hsize.1 hshift) (by omega)⟩
    rw [Nat.mul_assoc, ← Nat.pow_add, Nat.sub_add_cancel hshift]
  · obtain ⟨k, rfl⟩ : ∃ k, shift = k + 1 + bits := ⟨shift - bits - 1, by omega⟩
    have hunit : ∀ m : Nat, m * 2 ^ (k + 1 + bits) = m * 2 ^ (k + 1) * 2 ^ bits := fun m => by
      rw [Nat.pow_add, Nat.mul_assoc]
    refine ⟨roundQuotient (n * 2 ^ bits) (2 ^ (k + 1 + bits)) * 2 ^ (k + 1), hunit _,
      fun h => ?_, fun _ => ?_⟩
    · have hn : n = 2 ^ 53 := by omega
      obtain rfl : k = 0 := by have := hedge hn; omega
      have hhalf : n * 2 ^ bits = 2 ^ 52 * 2 ^ (0 + 1 + bits) := by
        rw [hunit, hn]
        exact congrArg (· * 2 ^ bits) rfl
      exact Nat.eq_of_mul_eq_mul_right (Nat.two_pow_pos bits)
        ((hunit _).symm.trans (hexact _ hhalf))
    · exact Dvd.dvd.mul_left (Dvd.intro_left (2 ^ k) rfl) _

namespace FiniteDouble

/-- The double of an integer is the nearest one to it, and is a whole number: the integer itself up
to `2 ^ 53`, and an even one from there on. -/
theorem exists_whole {n : Int} {x : FiniteDouble} (h : ofInt? n = some x) : x.IsNearest n ∧
    ∃ m : Int, x.toInt? = some m ∧ (n.natAbs ≤ 2 ^ 53 → m = n) ∧ (2 ^ 53 ≤ n.natAbs → 2 ∣ m) := by
  unfold ofInt? Double.ofInt Double.ofCode at h
  split at h
  · next hcode =>
    cases h
    refine ⟨isNearest_of_code rfl rfl, ?_⟩
    obtain ⟨m, hm, hexact, heven⟩ := exists_codeSteps_whole n.natAbs
    refine ⟨if n < 0 then -m else m, toInt?_eq_some.2 ?_, fun hn => ?_, fun hn => ?_⟩
    · have hsign : ∀ unit : Nat, (if n < 0 then -(m * unit : Nat) else (m * unit : Nat) : Int) =
          (if n < 0 then -(m : Int) else m) * unit := fun unit => by
        split <;> push_cast <;> ring
      simpa only [steps, hm, decide_eq_true_eq] using hsign _
    · have := hexact hn
      split <;> omega
    · have := heven hn
      split <;> omega
  · cases h

/-! ## Remainders of whole doubles -/

/-- A step of the integers is more than the tolerance. -/
theorem tolerance_lt : Number.divisibilityTolerance < 2 ^ stepBits := by decide +kernel

/-- The remainder of naturals by a rounded quotient is zero exactly if one divides the other. -/
theorem remainder_eq_zero {a b : Nat} : (a : Int) - roundQuotient a b * b = 0 ↔ b ∣ a := by
  constructor
  · intro h
    exact ⟨roundQuotient a b, by rw [Nat.mul_comm]; omega⟩
  · rintro ⟨k, rfl⟩
    rcases Nat.eq_zero_or_pos b with rfl | hb
    · simp
    · rw [Nat.mul_comm b k, roundQuotient_mul hb, Nat.cast_mul, Int.sub_self]

/-- A whole double is within the tolerance of a multiple of another exactly if it is one. -/
theorem remainder_le_tolerance {x y : FiniteDouble} {v d : Int} (hx : x.toInt? = some v)
    (hy : y.toInt? = some d) : (x.remainderSteps y).natAbs ≤ Number.divisibilityTolerance ↔
    d ∣ v := by
  have hunit := Nat.two_pow_pos stepBits
  have hsmall := tolerance_lt
  rw [← Int.natAbs_dvd_natAbs, ← remainder_eq_zero, remainderSteps, apply_ite Int.natAbs,
    Int.natAbs_neg, ite_self, toInt?_eq_some.1 hx, toInt?_eq_some.1 hy]
  simp only [Int.natAbs_mul, Int.natAbs_natCast]
  generalize 2 ^ stepBits = unit at hunit hsmall ⊢
  generalize v.natAbs = a
  generalize d.natAbs = b
  rw [Nat.mul_comm a, Nat.mul_comm b, roundQuotient_mul_left hunit, Nat.cast_mul, Nat.cast_mul,
    Int.mul_left_comm, ← Int.mul_sub, Int.natAbs_mul, Int.natAbs_natCast, ← Int.natAbs_eq_zero]
  constructor
  · intro hle
    by_contra hne
    have := Nat.mul_le_mul_left unit (Nat.one_le_iff_ne_zero.2 hne)
    omega
  · intro hzero
    rw [hzero]
    exact Nat.zero_le _

end FiniteDouble

/-! ## Constraints of divisibility -/

/-- Numbers whose doubles are whole are multiples exactly if the integers of these doubles are. -/
theorem Number.isMultipleOf_whole {v d : Number} {v' d' : Int} {x y : FiniteDouble}
    (hx : v.toDouble? = some x) (hy : d.toDouble? = some y) (hv : x.toInt? = some v')
    (hd : y.toInt? = some d') : v.isMultipleOf d = .ok (decide (d' ∣ v')) := by
  rw [isMultipleOf, hx, hy, ← decide_eq_decide.2 (FiniteDouble.remainder_le_tolerance hv hd)]

namespace Constraint

/-- An integer satisfies an active constraint of parity exactly if it is even, where that is
asked. -/
theorem satisfies_even {p : Constraint} {v : Int} (hp : p.active = true)
    (hrule : p.rule = .parity .even) : p.satisfies (.int v) = .ok true ↔ 2 ∣ v := by
  rw [satisfies, if_pos hp]
  simp only [Number.ofNumeric?, Rule.admits, hrule, Number.hasParity, Number.toInt?,
    Except.ok.injEq, beq_self_eq_true, beq_iff_eq, Int.dvd_iff_emod_eq_zero]

/-- An active constraint of divisibility answers for integers that have doubles, and tells whether
the integer of the one double divides the integer of the other. The doubles are the nearest ones,
and are the integers themselves up to `2 ^ 53`. Where the divisor is two, all that is even is
accepted, and all integers beyond `2 ^ 53` are. -/
theorem divisible_of_rounded {c : Constraint} {v d : Int} (hc : c.active = true)
    (hrule : c.rule = .divisible (.whole d)) (hv : (FiniteDouble.ofInt? v).isSome = true)
    (hd : (FiniteDouble.ofInt? d).isSome = true) :
    ∃ (x y : FiniteDouble) (v' d' : Int), x.IsNearest v ∧ x.toInt? = some v' ∧ y.IsNearest d ∧
      y.toInt? = some d' ∧
      c.satisfies (.int v) = .ok (decide (d' ∣ v')) ∧
      (v.natAbs ≤ 2 ^ 53 → v' = v) ∧ (d.natAbs ≤ 2 ^ 53 → d' = d) ∧
      ∀ p : Constraint, d = 2 → p.active = true → p.rule = .parity .even →
        (c.satisfies (.int v) = .ok true ↔ p.satisfies (.int v) = .ok true ∨
        2 ^ 53 < v.natAbs) := by
  obtain ⟨x, hx⟩ := Option.isSome_iff_exists.1 hv
  obtain ⟨y, hy⟩ := Option.isSome_iff_exists.1 hd
  obtain ⟨hxv, v', hv', hexact, heven⟩ := FiniteDouble.exists_whole hx
  obtain ⟨hyd, d', hd', hexact', -⟩ := FiniteDouble.exists_whole hy
  have hanswer : c.satisfies (.int v) = .ok (decide (d' ∣ v')) := by
    rw [satisfies, if_pos hc]
    simp only [Number.ofNumeric?, hrule, Rule.admits]
    exact Number.isMultipleOf_whole (v := .whole v) (d := .whole d) hx hy hv' hd'
  refine ⟨x, y, v', d', hxv, hv', hyd, hd', hanswer, hexact, hexact', fun p htwo hp hparity => ?_⟩
  have hdivisor : d' = 2 := by
    rw [htwo] at hexact'
    exact hexact' (by decide)
  rw [hanswer, satisfies_even hp hparity, Except.ok.injEq, decide_eq_true_eq, hdivisor]
  rcases Nat.lt_or_ge (2 ^ 53) v.natAbs with hlarge | hsmall
  · exact ⟨fun _ => .inr hlarge, fun _ => heven hlarge.le⟩
  · rw [hexact hsmall]
    exact ⟨.inl, fun h => h.resolve_right (Nat.not_lt.2 hsmall)⟩

/-- The active constraint of divisibility by a number other than zero. -/
def ofDivisor (id : Datum) (divisor : Number) (h : divisor.scaled ≠ 0) : Constraint where
  id
  active := true
  kind := .divisible
  terms := { divisor := divisor.toDatum }
  rule := .divisible divisor
  stated := by cases divisor <;> exact if_neg h

/-- Divisible by two. -/
def byTwo : Constraint := ofDivisor (.text "a") (.whole 2) (by decide +kernel)

/-- Even. -/
def evenOnly : Constraint :=
  ⟨.text "b", true, .parity, { parity := some .even }, .parity .even, rfl⟩

/-- An odd integer beyond `2 ^ 53` counts as divisible by two. -/
theorem divisible_of_rounded_odd : byTwo.satisfies (.int (2 ^ 53 + 1)) = .ok true := by
  obtain ⟨x, y, v', d', -, -, -, -, -, -, -, htwo⟩ :=
    divisible_of_rounded (c := byTwo) (v := 2 ^ 53 + 1) rfl rfl
    (by decide +kernel) (by decide +kernel)
  exact (htwo evenOnly rfl rfl rfl).2 (.inr (by decide))

/-- That integer is not divisible by two, and the constraint of even parity refuses it. -/
theorem divisible_odd_accepted : byTwo.satisfies (.int (2 ^ 53 + 1)) = .ok true ∧
    ¬ (2 : Int) ∣ 2 ^ 53 + 1 ∧
    evenOnly.satisfies (.int (2 ^ 53 + 1)) = .ok false := by
  refine ⟨by decide +kernel, by decide, by decide +kernel⟩

end Constraint

end EquationStudio
