import EquationStudio.Algebra.Product
import Mathlib.Algebra.Order.Field.Rat

/-!
# Amounts

Without symbols, and with whole exponents, an expression is a rational, the infinity or the
undefined value (`Amount`). Sums, products, quotients and powers of amounts are worked out here case
by case, and the normal forms agree with them (`Amount.toExpr_add` and the lemmas beside it).
-/

namespace EquationStudio

/-- A rational, the infinity without direction, or the undefined value. -/
inductive Amount where
  | finite (q : ℚ)
  | infinite
  | undefined
  deriving DecidableEq

namespace Amount

/-- The expression that an amount is. -/
def toExpr : Amount → Expr
  | finite q => .number q
  | infinite => .infinite
  | undefined => .undefined

/-- The sum of amounts. Two infinities leave it undefined. -/
protected def add : Amount → Amount → Amount
  | finite p, finite q => finite (p + q)
  | finite _, infinite | infinite, finite _ => infinite
  | infinite, infinite | undefined, _ | _, undefined => undefined

/-- The product of amounts. Zero times the infinity is undefined. -/
protected def mul : Amount → Amount → Amount
  | finite p, finite q => finite (p * q)
  | finite q, infinite | infinite, finite q => if q = 0 then undefined else infinite
  | infinite, infinite => infinite
  | undefined, _ | _, undefined => undefined

/-- The opposite of an amount. -/
protected def neg (a : Amount) : Amount := (finite (-1)).mul a

/-- The difference of amounts. -/
protected def sub (a b : Amount) : Amount := a.add b.neg

/-- An amount to the power of another. To the power zero everything is one. -/
protected def pow : Amount → Amount → Amount
  | _, infinite | _, undefined => undefined
  | b, finite r =>
    if r = 0 then finite 1
    else match b with
      | undefined => undefined
      | infinite => if 0 < r then infinite else finite 0
      | finite q => if q = 0 ∧ r < 0 then infinite else finite (q ^ r.num)

/-- The quotient of amounts. Nothing but zero divided by zero is undefined among rationals. -/
protected def div : Amount → Amount → Amount
  | finite p, finite q => if q = 0 then if p = 0 then undefined else infinite else finite (p / q)
  | a, b => a.mul (b.pow (finite (-1)))

end Amount

namespace Expr

/-! ## Products without factors, and powers of rationals -/

/-- A product of which only a coefficient, the infinity or the undefined value was collected has no
other factors. -/
theorem finishProduct_coefficient (fuel : Nat) (q : ℚ) (isInfinite isUndefined : Bool) :
    finishProduct (fuel + 2)
      { coefficient := q, infinite := isInfinite, undefined := isUndefined } =
      if isUndefined then undefined else if isInfinite then infinite else number q := by
  have hgather : gather [] = [] := rfl
  have hraise : raise (fuel + 1) 2 [] = [] := by simp only [raise, hgather]; rfl
  have hjoin : joinRoots (fuel + 1) [] [] = (1, []) := by rw [joinRoots]
  have hpart : (0 : ℚ) - ((0 : ℚ).floor : ℚ) = 0 := by decide +kernel
  have hroots : byExponent (α := ℚ) [] = [] := rfl
  have hexponentials : byExponent (α := Expr) [] = [] := rfl
  have horder : orderedFactors [] = [] := by simp [orderedFactors]
  have hscale : ∀ s : ProductParts, s.scale 1 = s := fun s => by
    unfold ProductParts.scale
    split <;> simp
  cases isUndefined
  · rw [finishProduct]
    simp only [hraise, hgather, hexponentials, hroots, hjoin, hpart,
      List.filterMap_nil, List.map_nil, List.foldl_nil, List.filter_nil, if_true, List.append_nil,
      List.flatMap_nil, List.any_nil]
    have hsign : (if (0 : ℚ).floor % 2 = 0 then (1 : ℚ) else -1) = 1 := if_pos rfl
    have hnumbers : numbersProduct [] = 1 := rfl
    simp only [hsign, hnumbers, mul_one, hscale, horder, List.contains_nil,
      Bool.false_eq_true, if_false]
    cases isInfinite
    · by_cases hq : q = 0
      · simp only [hq, zero, Bool.false_eq_true, if_false, if_true]
      · simp only [hq, Bool.false_eq_true, if_false]
    · rfl
  · rw [finishProduct, if_pos rfl, if_pos rfl]

/-- Powers that are taken without multiplying are the powers. -/
theorem naturalPower_eq (q : ℚ) (n : Nat) : naturalPower q n = q ^ n := by
  unfold naturalPower
  split_ifs with hone hzero hminus heven
  · rcases hone with rfl | rfl
    · rw [pow_zero]
    · rw [one_pow]
  · rw [hzero, zero_pow fun h => hone (.inl h)]
  · rw [hminus, (Nat.even_iff.2 heven).neg_one_pow]
  · rw [hminus, (Nat.odd_iff.2 (by omega)).neg_one_pow]
  · rfl

end Expr

namespace Amount

variable (a b : Amount)

/-! ## Normal forms of amounts -/

/-- The normal form of a sum. -/
theorem toExpr_add : Expr.add a.toExpr b.toExpr = (a.add b).toExpr := by
  cases a <;> cases b <;>
    simp [toExpr, Amount.add, Expr.add, Expr.sumOf, Expr.terms, Expr.SumParts.take,
    Expr.SumParts.total]

/-- The normal form of a product, with fuel for each of its steps. -/
theorem productWithin_toExpr (fuel : Nat) :
    Expr.productWithin (fuel + 3) [a.toExpr, b.toExpr] = (a.mul b).toExpr := by
  cases a <;> cases b <;>
    simp only [toExpr, Expr.productWithin, List.foldl_cons, List.foldl_nil, Expr.takeFactor,
      Expr.ProductParts.scale, Expr.ProductParts.blowUp, Amount.mul, Bool.false_eq_true,
      if_false, one_mul,
      Bool.not_false, Bool.not_true, Bool.true_and, Bool.false_and, decide_eq_true_eq, if_true,
      Expr.finishProduct_coefficient, one_ne_zero]
  all_goals split <;> simp only [Expr.finishProduct_coefficient, if_true,
    Bool.false_eq_true, if_false]

/-- The normal form of a product. -/
theorem toExpr_mul : Expr.mul a.toExpr b.toExpr = (a.mul b).toExpr := by
  -- There is more fuel than is needed.
  have hproduct : Expr.productOf [a.toExpr, b.toExpr] = (a.mul b).toExpr :=
    productWithin_toExpr a b 397
  cases a with
  | finite p =>
    cases b with
    | finite q => rfl
    | infinite | undefined => exact hproduct
  | infinite | undefined => exact hproduct

/-- The normal form of an opposite. -/
theorem toExpr_neg : Expr.neg a.toExpr = a.neg.toExpr := toExpr_mul (finite (-1)) a

/-- The normal form of a difference. -/
theorem toExpr_sub : Expr.sub a.toExpr b.toExpr = (a.sub b).toExpr := by
  rw [Expr.sub, toExpr_neg, toExpr_add, Amount.sub]

/-- The normal form of a whole power of a rational. -/
theorem wholePower_eq (q r : ℚ) :
    Expr.wholePower q r.num = ((finite q).pow (finite r)).toExpr := by
  have hpow :
      (if r.num < 0 then Expr.naturalPower q⁻¹ r.num.natAbs
        else Expr.naturalPower q r.num.natAbs) = q ^ r.num := by
    simp only [Expr.naturalPower_eq]
    split_ifs with h
    · rw [inv_pow, ← zpow_natCast, Int.ofNat_natAbs_of_nonpos h.le, zpow_neg, inv_inv]
    · rw [← zpow_natCast, Int.natAbs_of_nonneg (not_lt.1 h)]
  unfold Expr.wholePower Amount.pow
  rw [hpow]
  by_cases hzero : r = 0
  · simp [hzero, toExpr]
  · dsimp only
    rw [if_neg hzero]
    simp only [Rat.num_neg]
    split_ifs <;> rfl

/-- The normal form of a power of the infinity. -/
theorem powerWithin_infinite (fuel : Nat) (r : ℚ) :
    Expr.powerWithin (fuel + 1) .infinite (.number r) = (infinite.pow (finite r)).toExpr := by
  have hinfinite : (Expr.number r == Expr.infinite) = false := rfl
  have hzero : (Expr.number r == Expr.zero) = decide (r = 0) := rfl
  have hone : (Expr.number r == Expr.one) = decide (r = 1) := rfl
  have hundefined : (Expr.infinite == Expr.undefined ||
      Expr.number r == Expr.undefined) = false := rfl
  have hbase : (Expr.infinite == Expr.one) = false := rfl
  simp only [Expr.powerWithin, hinfinite, hzero, hone, hundefined, hbase, Amount.pow,
    Bool.false_eq_true, if_false, decide_eq_true_eq]
  split_ifs with h0 h1 hpos
  · rfl
  · rfl
  · exact absurd (h1 ▸ zero_lt_one) hpos
  · rfl
  · rfl

/-- The normal form of a power of the undefined value. -/
theorem powerWithin_undefined (fuel : Nat) (r : ℚ) :
    Expr.powerWithin (fuel + 1) .undefined (.number r) = (undefined.pow (finite r)).toExpr := by
  have hinfinite : (Expr.number r == Expr.infinite) = false := rfl
  have hzero : (Expr.number r == Expr.zero) = decide (r = 0) := rfl
  have hundefined : (Expr.undefined == Expr.undefined ||
      Expr.number r == Expr.undefined) = true := rfl
  simp only [Expr.powerWithin, hinfinite, hzero, hundefined, Amount.pow, Bool.false_eq_true,
    if_false, if_true, decide_eq_true_eq, ite_self]
  split_ifs <;> rfl

/-- The normal form of a power, where a rational base has a whole exponent. -/
theorem toExpr_pow (h : ∀ q r, a = finite q → b = finite r → r.den = 1) :
    Expr.pow a.toExpr b.toExpr = (a.pow b).toExpr := by
  cases b with
  | infinite => cases a <;> rfl
  | undefined => cases a <;> rfl
  | finite r =>
    cases a with
    | finite q =>
      have hden := h q r rfl rfl
      rw [← wholePower_eq]
      exact if_pos hden
    | infinite => exact powerWithin_infinite 399 r
    | undefined => exact powerWithin_undefined 399 r

/-- The normal form of a quotient. -/
theorem toExpr_div : Expr.div a.toExpr b.toExpr = (a.div b).toExpr := by
  have hmul : Expr.mul a.toExpr (Expr.pow b.toExpr Expr.minusOne) =
      (a.mul (b.pow (finite (-1)))).toExpr := by
    have hpow := toExpr_pow b (finite (-1)) (by rintro _ _ - ⟨⟩; rfl)
    rw [← toExpr_mul, ← hpow]
    rfl
  cases a with
  | finite p =>
    cases b with
    | finite q =>
      rw [Amount.div, Expr.div.eq_def, toExpr, toExpr]
      dsimp only
      split_ifs <;> rfl
    | infinite | undefined => exact hmul
  | infinite | undefined => exact hmul

/-- Anything to the power zero is one. -/
theorem pow_zero : a.pow (finite 0) = finite 1 := by
  cases a <;> simp [Amount.pow]

/-- A rational divided by the infinity is zero. -/
theorem finite_div_infinite (q : ℚ) : (finite q).div infinite = finite 0 := by
  have hne : (-1 : ℚ) ≠ 0 := neg_ne_zero.2 one_ne_zero
  have hneg : ¬ (0 : ℚ) < -1 := neg_one_lt_zero.not_gt
  simp only [Amount.div, Amount.pow, Amount.mul, hne, hneg, if_false, mul_zero]

/-- The infinity divided by a rational is the infinity. -/
theorem infinite_div_finite (q : ℚ) : infinite.div (finite q) = infinite := by
  by_cases hq : q = 0 <;> simp [Amount.div, Amount.pow, Amount.mul, hq]

/-! ## Finite amounts -/

/-- An amount that is a rational. -/
def IsFinite : Amount → Prop
  | finite _ => True
  | infinite | undefined => False

@[simp] theorem isFinite_finite (q : ℚ) : (finite q).IsFinite := trivial

@[simp] theorem not_isFinite_infinite : ¬ infinite.IsFinite := id

@[simp] theorem not_isFinite_undefined : ¬ undefined.IsFinite := id

variable {a b}

/-- A finite amount is a rational. -/
theorem isFinite_iff : a.IsFinite ↔ ∃ q, a = finite q := by
  cases a <;> simp

/-- A sum is finite if both terms are. -/
theorem isFinite_add : (a.add b).IsFinite ↔ a.IsFinite ∧ b.IsFinite := by
  cases a <;> cases b <;> simp [Amount.add]

/-- A product is finite if both factors are. -/
theorem isFinite_mul : (a.mul b).IsFinite ↔ a.IsFinite ∧ b.IsFinite := by
  cases a <;> cases b <;> simp [Amount.mul] <;> split <;> simp

/-- A difference is finite if both terms are. -/
theorem isFinite_sub : (a.sub b).IsFinite ↔ a.IsFinite ∧ b.IsFinite := by
  simp [Amount.sub, isFinite_add, Amount.neg, isFinite_mul]

/-- A power is finite if the exponent is zero, or if the base is a rational and no zero is inverted,
or if the base is the infinity and is inverted. -/
theorem isFinite_pow {r : ℚ} : (a.pow (finite r)).IsFinite ↔
    r = 0 ∨ a.IsFinite ∧ (a = finite 0 → 0 < r) ∨ a = infinite ∧ r < 0 := by
  unfold Amount.pow
  by_cases hr : r = 0
  · cases a <;> simp [hr]
  · have hlt : 0 < r ↔ ¬ r < 0 := ⟨fun h => h.not_gt, fun h => (not_lt.1 h).lt_of_ne' hr⟩
    cases a <;> simp only [hr, if_false, hlt]
    · split <;> simp_all
    · split <;> simp_all
    · simp

/-- A quotient is finite if the dividend is and the divisor is not zero or undefined. -/
theorem isFinite_div : (a.div b).IsFinite ↔ a.IsFinite ∧ b ≠ finite 0 ∧ b ≠ undefined := by
  have hmul : (a.mul (b.pow (finite (-1)))).IsFinite ↔
      a.IsFinite ∧ b ≠ finite 0 ∧ b ≠ undefined := by
    have hneg : ¬ (0 : ℚ) < -1 := neg_one_lt_zero.not_gt
    rw [isFinite_mul, isFinite_pow]
    cases b <;> simp [hneg]
  cases a with
  | finite p =>
    cases b with
    | finite q =>
      unfold Amount.div
      dsimp only
      split_ifs <;> simp_all
    | infinite | undefined => exact hmul
  | infinite | undefined => exact hmul

end Amount

end EquationStudio
