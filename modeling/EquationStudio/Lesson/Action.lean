import EquationStudio.Datum.Access

/-!
# What a step of a solution does

Each step of a solution performs one action of a closed set.
-/

namespace EquationStudio

/-- What a step of a solution does. -/
inductive Action where
  | addBothSides
  | subtractBothSides
  | multiplyBothSides
  | divideBothSides
  | squareRootBothSides
  | distribute
  | factor
  | combineLikeTerms
  | simplify
  | simplifyDiscriminant
  | zeroProductProperty
  | solveEach
  | identifyCoefficients
  | quadraticFormula
  | substitute
  | substituteBack
  | solveForVariable
  | solveForX
  | divide
  | finalCalculation
  | calculate
  | commonBase
  | equateExponents
  | convertToExponential
  | solution
  deriving DecidableEq

namespace Action

/-- The name of an action. -/
def name : Action → String
  | addBothSides => "add_both_sides"
  | subtractBothSides => "subtract_both_sides"
  | multiplyBothSides => "multiply_both_sides"
  | divideBothSides => "divide_both_sides"
  | squareRootBothSides => "square_root_both_sides"
  | distribute => "distribute"
  | factor => "factor"
  | combineLikeTerms => "combine_like_terms"
  | simplify => "simplify"
  | simplifyDiscriminant => "simplify_discriminant"
  | zeroProductProperty => "zero_product_property"
  | solveEach => "solve_each"
  | identifyCoefficients => "identify_coefficients"
  | quadraticFormula => "quadratic_formula"
  | substitute => "substitute"
  | substituteBack => "substitute_back"
  | solveForVariable => "solve_for_variable"
  | solveForX => "solve_for_x"
  | divide => "divide"
  | finalCalculation => "final_calculation"
  | calculate => "calculate"
  | commonBase => "rewrite_base"
  | equateExponents => "equate_exponents"
  | convertToExponential => "convert_to_exponential"
  | solution => "solution"

/-- All actions. -/
def all : List Action :=
  [addBothSides, subtractBothSides, multiplyBothSides, divideBothSides, squareRootBothSides,
    distribute, factor, combineLikeTerms, simplify, simplifyDiscriminant, zeroProductProperty,
    solveEach, identifyCoefficients, quadraticFormula, substitute, substituteBack,
    solveForVariable, solveForX, divide, finalCalculation, calculate, commonBase,
    equateExponents, convertToExponential, solution]

theorem mem_all (a : Action) : a ∈ all := by cases a <;> decide

/-- The action with a name. -/
def ofName? (s : String) : Option Action := all.find? (·.name == s)

/-- The action that a datum names. -/
def ofDatum? : Datum → Option Action
  | .text s => ofName? s
  | _ => none

end Action

end EquationStudio
