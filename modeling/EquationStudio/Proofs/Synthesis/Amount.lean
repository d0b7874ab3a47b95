import EquationStudio.Proofs.Algebra.Amount
import EquationStudio.Proofs.Synthesis.Accepted
import EquationStudio.Proofs.Synthesis.Bounded

/-!
# What formulas amount to

`Formula.Amounts` works a formula out on amounts: a literal and a bound value are the decimals that
they are written as, and an operator joins what its operands amount to. Where powers of rationals
have whole exponents and few enough digits, an algebra that is exact on rationals and goes on from a
division by zero as the projective line does (`SymbolicAlgebra.Extension`) builds of a formula what
it amounts to (`Formula.Amounts.builds`).
-/

namespace EquationStudio

/-! ## Operators on amounts -/

/-- A power that stays an amount and is not refused: a rational base has a whole exponent, and not
too many digits unless it is zero. -/
def Amount.Powers : Amount → Amount → Prop
  | finite q, finite r => r.den = 1 ∧ (q ≠ 0 → |(r : ℝ) * Real.logb 10 (|(q : ℝ)|)| ≤ 9999)
  | _, _ => True

/-- What an operator makes of amounts. -/
def Operator.amount : Operator → Amount → Amount → Amount
  | add => Amount.add
  | subtract => Amount.sub
  | multiply => Amount.mul
  | divide => Amount.div
  | power => Amount.pow

/-- What a formula amounts to, with values for its variables. Literals and values are the decimals
that they are written as. -/
inductive Formula.Amounts (values : Fields) : Formula → Amount → Prop
  | number {v : Number} {q : ℚ} (h : decimal? v.literal = some q) :
      Amounts values (.number v) (.finite q)
  | symbol {name : String} {d : Datum} {v : Number} {q : ℚ} (hd : Fields.get? values name = some d)
      (hv : Number.ofDatum d = .ok v) (h : decimal? v.literal = some q) :
      Amounts values (.symbol name) (.finite q)
  | join {op : Operator} {left right : Formula} {a b : Amount} (hl : Amounts values left a)
      (hr : Amounts values right b) (hpower : op = .power → a.Powers b) :
      Amounts values (.join op left right) (op.amount a b)

namespace SymbolicAlgebra

variable {A : SymbolicAlgebra}

namespace Extension

variable (E : A.Extension)

/-- The form that an amount is. -/
def ofAmount : Amount → A.Form
  | .finite q => A.rational q
  | .infinite => E.infinite
  | .undefined => E.undefined

/-- What is left of a division by zero. -/
def Remains (e : A.Form) : Prop := e = E.infinite ∨ e = E.undefined

/-- A form whose place among numbers is known: a finite one, the infinity or the undefined value. -/
def Ordinary (e : A.Form) : Prop := E.Known e ∨ E.Remains e

/-- The place of an amount is known. -/
theorem ordinary_ofAmount : ∀ a : Amount, E.Ordinary (E.ofAmount a)
  | .finite q => .inl (E.known_rational q)
  | .infinite => .inr (.inl rfl)
  | .undefined => .inr (.inr rfl)

/-- A power with the infinity or the undefined value in it is not refused. -/
theorem boundedPower_eq {e f : A.Form} (h : E.Remains e ∨ E.Remains f) :
    A.boundedPower e f = .ok (A.pow e f) := by
  have hnone : A.tooManyDigits? e f = none := by
    unfold tooManyDigits?
    split
    · next hnumbers =>
      simp only [Bool.and_eq_true] at hnumbers
      have hnan : A.powerDigits? e f = some .nan := by
        obtain (rfl | rfl) | rfl | rfl := h
        · exact absurd hnumbers.1.1 (Bool.eq_false_iff.1 E.isNumber_infinite)
        · exact E.digits_undefined f
        · exact absurd hnumbers.1.2 (Bool.eq_false_iff.1 E.isNumber_infinite)
        · exact E.undefined_digits e
      rw [hnan]
      exact if_neg Bool.false_ne_true
    · rfl
  rw [boundedPower, hnone]

section
variable (hA : A.Exact) (a b : Amount)
include hA

/-- Whether a rational is zero is known. -/
theorem ite_isZero {α : Type} (q : ℚ) (x y : α) :
    (if A.isZero (A.rational q) then x else y) = if q = 0 then x else y := by
  have hzero : A.isZero (A.rational q) = true ↔ q = 0 := by
    rw [hA.isZero, hA.injective.eq_iff]
  simp only [hzero]

/-- The sum of amounts. -/
theorem add_ofAmount : A.add (E.ofAmount a) (E.ofAmount b) = E.ofAmount (a.add b) := by
  cases a with
  | finite p =>
    cases b with
    | finite q => exact hA.add p q
    | infinite => exact E.add_infinite _ (E.known_rational p)
    | undefined => exact (E.undefined_add _ (.inl (E.known_rational p))).1
  | infinite =>
    cases b with
    | finite q => exact E.infinite_add _ (E.known_rational q)
    | infinite => exact E.infinite_add_infinite
    | undefined => exact (E.undefined_add _ (.inr (.inl rfl))).1
  | undefined => exact (E.undefined_add _ (E.ordinary_ofAmount b)).2

/-- The difference of amounts. -/
theorem sub_ofAmount : A.sub (E.ofAmount a) (E.ofAmount b) = E.ofAmount (a.sub b) := by
  cases a with
  | finite p =>
    cases b with
    | finite q =>
      refine (hA.sub p q).trans (congrArg A.rational ?_)
      ring
    | infinite => exact E.sub_infinite _ (E.known_rational p)
    | undefined => exact (E.undefined_sub _ (.inl (E.known_rational p))).1
  | infinite =>
    cases b with
    | finite q => exact E.infinite_sub _ (E.known_rational q)
    | infinite => exact E.infinite_sub_infinite
    | undefined => exact (E.undefined_sub _ (.inr (.inl rfl))).1
  | undefined => exact (E.undefined_sub _ (E.ordinary_ofAmount b)).2

/-- The product of amounts. -/
theorem mul_ofAmount : A.mul (E.ofAmount a) (E.ofAmount b) = E.ofAmount (a.mul b) := by
  cases a with
  | finite p =>
    cases b with
    | finite q => exact hA.mul p q
    | infinite =>
      refine (E.mul_infinite _ (E.known_rational p)).trans ?_
      rw [ite_isZero hA, Amount.mul, apply_ite E.ofAmount]
      rfl
    | undefined => exact (E.undefined_mul _ (.inl (E.known_rational p))).1
  | infinite =>
    cases b with
    | finite q =>
      refine (E.infinite_mul _ (E.known_rational q)).trans ?_
      rw [ite_isZero hA, Amount.mul, apply_ite E.ofAmount]
      rfl
    | infinite => exact E.infinite_mul_infinite
    | undefined => exact (E.undefined_mul _ (.inr (.inl rfl))).1
  | undefined => exact (E.undefined_mul _ (E.ordinary_ofAmount b)).2

/-- The quotient of amounts. -/
theorem div_ofAmount : A.div (E.ofAmount a) (E.ofAmount b) = E.ofAmount (a.div b) := by
  cases a with
  | finite p =>
    cases b with
    | finite q =>
      by_cases hq : q = 0
      · rw [hq]
        refine (E.div_zero _ (E.known_rational p)).trans ?_
        rw [ite_isZero hA, Amount.div, if_pos rfl, apply_ite E.ofAmount]
        rfl
      · rw [Amount.div, if_neg hq]
        exact hA.div p q hq
    | infinite =>
      rw [Amount.finite_div_infinite]
      exact E.div_infinite _ (E.known_rational p)
    | undefined => exact (E.undefined_div _ (.inl (E.known_rational p))).1
  | infinite =>
    cases b with
    | finite q =>
      rw [Amount.infinite_div_finite]
      exact E.infinite_div _ (E.known_rational q)
    | infinite => exact E.infinite_div_infinite
    | undefined => exact (E.undefined_div _ (.inr (.inl rfl))).1
  | undefined => exact (E.undefined_div _ (E.ordinary_ofAmount b)).2

/-- A power of amounts, where a rational base has a whole exponent. -/
theorem pow_ofAmount (h : a.Powers b) :
    A.pow (E.ofAmount a) (E.ofAmount b) = E.ofAmount (a.pow b) := by
  cases b with
  | infinite => exact E.pow_infinite _
  | undefined => exact E.pow_undefined _
  | finite r =>
    by_cases hr : r = 0
    · rw [hr, Amount.pow_zero]
      exact E.pow_zero _
    cases a with
    | undefined =>
      simp only [Amount.pow, hr, if_false]
      exact E.undefined_pow r hr
    | infinite =>
      simp only [Amount.pow, hr, if_false]
      split_ifs with hpos
      · exact E.infinite_pow r hpos
      · exact E.infinite_inv r ((not_lt.1 hpos).lt_of_ne hr)
    | finite q =>
      have hwhole : ((r.num : ℤ) : ℚ) = r := Rat.coe_int_num_of_den_eq_one h.1
      simp only [Amount.pow, hr, if_false]
      split_ifs with hinverse
      · rw [hinverse.1]
        exact E.zero_pow _ (E.negative_rational r hinverse.2)
      · refine (congrArg (fun r => A.pow (A.rational q) (A.rational r)) hwhole.symm).trans ?_
        refine hA.pow q r.num fun hq => Rat.num_nonneg.2 (not_lt.1 fun hneg => hinverse ⟨hq, hneg⟩)

/-- An operation on amounts. -/
theorem combine_ofAmount (hC : A.Converts) (op : Operator) (h : op = .power → a.Powers b) :
    A.combine op (some (E.ofAmount a)) (some (E.ofAmount b)) =
      .ok (some (E.ofAmount (op.amount a b))) := by
  cases op with
  | add => exact congrArg (fun e => Except.ok (some e)) (E.add_ofAmount hA a b)
  | subtract => exact congrArg (fun e => Except.ok (some e)) (E.sub_ofAmount hA a b)
  | multiply => exact congrArg (fun e => Except.ok (some e)) (E.mul_ofAmount hA a b)
  | divide => exact congrArg (fun e => Except.ok (some e)) (E.div_ofAmount hA a b)
  | power =>
    have hpow := E.pow_ofAmount hA a b (h rfl)
    have hbounded : A.boundedPower (E.ofAmount a) (E.ofAmount b) =
        .ok (A.pow (E.ofAmount a) (E.ofAmount b)) := by
      cases a with
      | infinite => exact E.boundedPower_eq (.inl (.inl rfl))
      | undefined => exact E.boundedPower_eq (.inl (.inr rfl))
      | finite q =>
        cases b with
        | infinite => exact E.boundedPower_eq (.inr (.inl rfl))
        | undefined => exact E.boundedPower_eq (.inr (.inr rfl))
        | finite r => exact boundedPower_rational hA hC (h rfl).2
    rw [combine, powerOfOperands, hbounded, hpow]
    rfl

end

end Extension

end SymbolicAlgebra

namespace Formula

namespace Amounts

variable {values : Fields} {t : Formula} {a a' : Amount}

/-- A formula amounts to one thing at most. -/
theorem unique (h : t.Amounts values a) (h' : t.Amounts values a') : a = a' := by
  induction h generalizing a' with
  | number h =>
    cases h' with
    | number h' => cases h.symm.trans h'; rfl
  | symbol hd hv h =>
    cases h' with
    | symbol hd' hv' h' =>
      cases hd.symm.trans hd'
      cases hv.symm.trans hv'
      cases h.symm.trans h'
      rfl
  | join _ _ _ ihl ihr =>
    cases h' with
    | join hl' hr' => rw [ihl hl', ihr hr']

/-- The algebra builds of a formula what it amounts to. -/
theorem builds {A : SymbolicAlgebra} (hA : A.Exact) (hC : A.Converts) (E : A.Extension)
    (h : t.Amounts values a) {b : A.Bindings} (hb : A.readBindings values = .ok b) :
    t.Builds b (E.ofAmount a) := by
  induction h with
  | number h => exact builds_number h
  | symbol hd hv h => exact builds_symbol hb hd hv h
  | join _ _ hpower ihl ihr =>
    exact (ihl.fold_join ihr).trans (E.combine_ofAmount hA _ _ hC _ hpower)

end Amounts

end Formula

end EquationStudio
