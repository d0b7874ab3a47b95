import EquationStudio.Synthesis.Algebra
import Mathlib.Analysis.SpecialFunctions.Log.Base

/-!
# What is relied on of a computer algebra

How a library for computer algebra answers is documented, but it is no part of the editor. Results
that rely on it take what they rely on as hypotheses, which are the laws here. Rationals are worked
out exactly (`SymbolicAlgebra.Exact`) and converted to doubles by way of 53 significant digits
(`SymbolicAlgebra.Converts`), other constants are converted with an error of a few digits
(`SymbolicAlgebra.Measure`). No operation invents a symbol (`SymbolicAlgebra.Scoped`) or changes the
value that a form has for given values of its symbols (`SymbolicAlgebra.Valuation`). Powers of a
multiple of a symbol are taken factor by factor (`SymbolicAlgebra.Distributes`), and what is divided
by zero is an infinity or an undefined value, of which operations make what the arithmetic of the
projective line does (`SymbolicAlgebra.Extension`).
-/

namespace EquationStudio

namespace SymbolicAlgebra

variable (A : SymbolicAlgebra)

/-- A fault of an algebra that cannot write or simplify one of its forms. -/
def Raises (fault : DatumFault) : Prop :=
  (∃ e, A.text e = .error fault) ∨ ∃ e, A.simplify e = .error fault

/-- An algebra that works rationals out exactly, and knows them for what they are. -/
structure Exact : Prop where
  injective : Function.Injective A.rational
  add : ∀ p q, A.add (A.rational p) (A.rational q) = A.rational (p + q)
  sub : ∀ p q, A.sub (A.rational p) (A.rational q) = A.rational (p - q)
  mul : ∀ p q, A.mul (A.rational p) (A.rational q) = A.rational (p * q)
  div : ∀ p q, q ≠ 0 → A.div (A.rational p) (A.rational q) = A.rational (p / q)
  pow : ∀ (q : ℚ) (n : ℤ), (q = 0 → 0 ≤ n) →
    A.pow (A.rational q) (A.rational n) = A.rational (q ^ n)
  isNumber : ∀ q, A.isNumber (A.rational q) = true
  /-- The number zero is the only form that equals it. -/
  isZero : ∀ e, A.isZero e = true ↔ e = A.rational 0
  names : ∀ q, A.names (A.rational q) = []
  isSingular : ∀ q, A.isSingular (A.rational q) = false
  isFinite : ∀ q, A.isFinite (A.rational q) = true
  isReal : ∀ q, A.isReal (A.rational q) = true

/-- An algebra that converts rationals to doubles by way of 53 significant digits. One that is too
large becomes an infinity. -/
structure Converts : Prop where
  toDouble : ∀ q, A.toDouble? (A.rational q) = some (.ofRatTwice q)
  /-- Fifty bits of the digits of a power are right when they are converted. -/
  powerDigits : ∀ q r : ℚ, q ≠ 0 → ∃ d : ℚ,
    A.powerDigits? (A.rational q) (A.rational r) = some (.ofRat d) ∧
      |(d : ℝ) - r * Real.logb 10 (|(q : ℝ)|)| ≤ |r * Real.logb 10 (|(q : ℝ)|)| / 2 ^ 50

/-- Which real numbers an algebra knows forms to be, and that it converts these to doubles. -/
structure Measure where
  /-- The form is a real number, of which the algebra finds the digits. -/
  Is : A.Form → ℝ → Prop
  is_rational : ∀ q : ℚ, Is (A.rational q) q
  /-- A constant that is known to be finite and real is converted to the double of some rational,
  one that is too large to an infinity. Fifty bits are right. -/
  toDouble : ∀ e, A.names e = [] → A.isSingular e = false → A.isFinite e = true →
    A.isReal e = true → ∃ d : ℚ, A.toDouble? e = some (.ofRat d) ∧
      ∀ v : ℝ, Is e v → |(d : ℝ) - v| ≤ |v| / 2 ^ 50

/-- An algebra whose operations invent no symbols. -/
structure Scoped : Prop where
  isNumber : ∀ e, A.isNumber e = true → A.names e = []
  symbol : ∀ name, A.names (A.symbol name) ⊆ [name]
  add : ∀ e f, A.names (A.add e f) ⊆ A.names e ++ A.names f
  sub : ∀ e f, A.names (A.sub e f) ⊆ A.names e ++ A.names f
  mul : ∀ e f, A.names (A.mul e f) ⊆ A.names e ++ A.names f
  div : ∀ e f, A.names (A.div e f) ⊆ A.names e ++ A.names f
  pow : ∀ e f, A.names (A.pow e f) ⊆ A.names e ++ A.names f

/-- The values of forms, for given values of their symbols. Operations keep them, and where no
symbol is left the form is the rational itself. -/
structure Valuation where
  /-- The form has a value for values of its symbols. -/
  Meets : (String → ℚ) → A.Form → ℚ → Prop
  rational : ∀ ρ q, Meets ρ (A.rational q) q
  symbol : ∀ ρ name, Meets ρ (A.symbol name) (ρ name)
  add : ∀ {ρ e f p q}, Meets ρ e p → Meets ρ f q → Meets ρ (A.add e f) (p + q)
  sub : ∀ {ρ e f p q}, Meets ρ e p → Meets ρ f q → Meets ρ (A.sub e f) (p - q)
  mul : ∀ {ρ e f p q}, Meets ρ e p → Meets ρ f q → Meets ρ (A.mul e f) (p * q)
  div : ∀ {ρ e f p q}, Meets ρ e p → Meets ρ f q → q ≠ 0 → Meets ρ (A.div e f) (p / q)
  pow : ∀ {ρ e q} {n : ℤ}, Meets ρ e q → (q = 0 → 0 ≤ n) → Meets ρ (A.pow e (A.rational n)) (q ^ n)
  constant : ∀ {ρ e q}, Meets ρ e q → A.names e = [] → e = A.rational q

/-- An algebra that takes whole powers of a multiple of a symbol factor by factor. -/
structure Distributes : Prop where
  isNumber : ∀ name q, q ≠ 0 → A.isNumber (A.mul (A.symbol name) (A.rational q)) = false
  pow : ∀ name q (k : ℤ), q ≠ 0 → A.pow (A.mul (A.symbol name) (A.rational q)) (A.rational k) =
    A.mul (A.pow (A.symbol name) (A.rational k)) (A.rational (q ^ k))

/-- How an algebra goes on where zero is divided by: with one infinity without direction and one
undefined value, among forms that it knows to be finite numbers. -/
structure Extension where
  infinite : A.Form
  undefined : A.Form
  /-- The forms that are known to be finite real numbers, and to be zero or not. -/
  Known : A.Form → Prop
  /-- The forms that are known to be negative numbers. -/
  Negative : A.Form → Prop
  known_rational : ∀ q, Known (A.rational q)
  negative_rational : ∀ q, q < 0 → Negative (A.rational q)
  names_infinite : A.names infinite = []
  names_undefined : A.names undefined = []
  isSingular_infinite : A.isSingular infinite = true
  isSingular_undefined : A.isSingular undefined = true
  isNumber_infinite : A.isNumber infinite = false
  /-- The digits of what is undefined are undefined. -/
  digits_undefined : ∀ e, A.powerDigits? undefined e = some .nan
  undefined_digits : ∀ e, A.powerDigits? e undefined = some .nan
  /-- A number divided by zero is the infinity, but zero divided by zero is undefined. -/
  div_zero : ∀ e, Known e → A.div e (A.rational 0) = if A.isZero e then undefined else infinite
  zero_pow : ∀ e, Negative e → A.pow (A.rational 0) e = infinite
  /-- To the power zero everything is one. -/
  pow_zero : ∀ e, A.pow e (A.rational 0) = A.rational 1
  /-- A number takes nothing from the infinity, but zero times the infinity is undefined. -/
  add_infinite : ∀ e, Known e → A.add e infinite = infinite
  infinite_add : ∀ e, Known e → A.add infinite e = infinite
  sub_infinite : ∀ e, Known e → A.sub e infinite = infinite
  infinite_sub : ∀ e, Known e → A.sub infinite e = infinite
  mul_infinite : ∀ e, Known e → A.mul e infinite = if A.isZero e then undefined else infinite
  infinite_mul : ∀ e, Known e → A.mul infinite e = if A.isZero e then undefined else infinite
  infinite_div : ∀ e, Known e → A.div infinite e = infinite
  div_infinite : ∀ e, Known e → A.div e infinite = A.rational 0
  infinite_pow : ∀ q, 0 < q → A.pow infinite (A.rational q) = infinite
  infinite_inv : ∀ q, q < 0 → A.pow infinite (A.rational q) = A.rational 0
  pow_infinite : ∀ e, A.pow e infinite = undefined
  /-- Of two infinities only the product is one. -/
  infinite_add_infinite : A.add infinite infinite = undefined
  infinite_sub_infinite : A.sub infinite infinite = undefined
  infinite_mul_infinite : A.mul infinite infinite = infinite
  infinite_div_infinite : A.div infinite infinite = undefined
  /-- The undefined value absorbs numbers, the infinity and itself, but for the power zero. -/
  undefined_add : ∀ e, Known e ∨ e = infinite ∨ e = undefined →
    A.add e undefined = undefined ∧ A.add undefined e = undefined
  undefined_sub : ∀ e, Known e ∨ e = infinite ∨ e = undefined →
    A.sub e undefined = undefined ∧ A.sub undefined e = undefined
  undefined_mul : ∀ e, Known e ∨ e = infinite ∨ e = undefined →
    A.mul e undefined = undefined ∧ A.mul undefined e = undefined
  undefined_div : ∀ e, Known e ∨ e = infinite ∨ e = undefined →
    A.div e undefined = undefined ∧ A.div undefined e = undefined
  undefined_pow : ∀ q, q ≠ 0 → A.pow undefined (A.rational q) = undefined
  pow_undefined : ∀ e, A.pow e undefined = undefined

end SymbolicAlgebra

end EquationStudio
