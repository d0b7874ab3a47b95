import EquationStudio.Lesson.Basic

/-!
# The catalog of lessons

The authored lessons, by category, and the ways to look them up. Everything here is data: the steps
say how an equation is solved, and nothing solves it.
-/

namespace EquationStudio.Catalog

/-- The double 7/2. -/
def threeAndAHalf : Double := .finite ⟨false, ⟨0x400C000000000000, by decide⟩⟩

/-- A step with its number still to be given. -/
abbrev Draft := Int → Step

/-- A step without operand. -/
def plain (equation : String) (action : Action) (explanation : String) : Draft := fun number =>
  { number, equation, action, explanation }

/-- A step that does the same to both sides, with the operand. -/
def onBoth (equation : String) (action : Action) (operand : Datum) (explanation : String) : Draft :=
  fun number => { number, equation, action, explanation, operand }

/-- Steps numbered from one on. -/
def numbered (drafts : List Draft) : List Step :=
  drafts.zipIdx.map fun d => d.1 (d.2 + 1)

/-! ## Linear basic -/

/-- The lesson on `x + 3 = 7`. -/
def lin001 : Lesson where
  id := "lin_001"
  name := "Simple Addition"
  equation := "x + 3 = 7"
  difficulty := .beginner
  topic := "linear_equations"
  steps := numbered [
    onBoth "x + 3 = 7" .subtractBothSides (.int 3)
      "Subtract 3 from both sides to isolate x",
    plain "x = 7 - 3" .simplify
      "Simplify the right side",
    plain "x = 4" .solution
      "Solution found: x = 4"]
  playable := by decide

/-- The lesson on `x - 5 = 12`. -/
def lin002 : Lesson where
  id := "lin_002"
  name := "Simple Subtraction"
  equation := "x - 5 = 12"
  difficulty := .beginner
  topic := "linear_equations"
  steps := numbered [
    onBoth "x - 5 = 12" .addBothSides (.int 5)
      "Add 5 to both sides to isolate x",
    plain "x = 12 + 5" .simplify
      "Simplify the right side",
    plain "x = 17" .solution
      "Solution found: x = 17"]
  playable := by decide

/-- The lesson on `3x = 15`. -/
def lin003 : Lesson where
  id := "lin_003"
  name := "Simple Multiplication"
  equation := "3x = 15"
  difficulty := .beginner
  topic := "linear_equations"
  steps := numbered [
    onBoth "3x = 15" .divideBothSides (.int 3)
      "Divide both sides by 3 to isolate x",
    plain "x = 15/3" .simplify
      "Simplify the fraction",
    plain "x = 5" .solution
      "Solution found: x = 5"]
  playable := by decide

/-- The lesson on `x/4 = 6`. -/
def lin004 : Lesson where
  id := "lin_004"
  name := "Simple Division"
  equation := "x/4 = 6"
  difficulty := .beginner
  topic := "linear_equations"
  steps := numbered [
    onBoth "x/4 = 6" .multiplyBothSides (.int 4)
      "Multiply both sides by 4 to isolate x",
    plain "x = 6 × 4" .simplify
      "Simplify the right side",
    plain "x = 24" .solution
      "Solution found: x = 24"]
  playable := by decide

/-- The lesson on `2x + 5 = 13`. -/
def lin005 : Lesson where
  id := "lin_005"
  name := "Two-Step Equation"
  equation := "2x + 5 = 13"
  difficulty := .intermediate
  topic := "linear_equations"
  steps := numbered [
    onBoth "2x + 5 = 13" .subtractBothSides (.int 5)
      "Subtract 5 from both sides",
    plain "2x = 13 - 5" .simplify
      "Simplify the right side",
    onBoth "2x = 8" .divideBothSides (.int 2)
      "Divide both sides by 2",
    plain "x = 8/2" .simplify
      "Simplify the fraction",
    plain "x = 4" .solution
      "Solution found: x = 4"]
  playable := by decide

/-- The lesson on `3x + 2 = x + 8`. -/
def lin006 : Lesson where
  id := "lin_006"
  name := "Variables on Both Sides"
  equation := "3x + 2 = x + 8"
  difficulty := .intermediate
  topic := "linear_equations"
  steps := numbered [
    onBoth "3x + 2 = x + 8" .subtractBothSides (.text "x")
      "Subtract x from both sides to collect variables",
    plain "3x - x + 2 = 8" .simplify
      "Combine like terms on the left",
    onBoth "2x + 2 = 8" .subtractBothSides (.int 2)
      "Subtract 2 from both sides",
    plain "2x = 8 - 2" .simplify
      "Simplify the right side",
    onBoth "2x = 6" .divideBothSides (.int 2)
      "Divide both sides by 2",
    plain "x = 3" .solution
      "Solution found: x = 3"]
  playable := by decide

/-! ## Linear advanced -/

/-- The lesson on `(x/2) + 3.5 = 8`. -/
def lin007 : Lesson where
  id := "lin_007"
  name := "Fractions and Decimals"
  equation := "(x/2) + 3.5 = 8"
  difficulty := .advanced
  topic := "linear_equations"
  steps := numbered [
    onBoth "(x/2) + 3.5 = 8" .subtractBothSides (.float threeAndAHalf)
      "Subtract 3.5 from both sides",
    plain "x/2 = 8 - 3.5" .simplify
      "Simplify the right side",
    onBoth "x/2 = 4.5" .multiplyBothSides (.int 2)
      "Multiply both sides by 2",
    plain "x = 4.5 × 2" .simplify
      "Simplify the right side",
    plain "x = 9" .solution
      "Solution found: x = 9"]
  playable := by decide

/-- The lesson on `2(x + 3) = 14`. -/
def lin008 : Lesson where
  id := "lin_008"
  name := "Distribution Required"
  equation := "2(x + 3) = 14"
  difficulty := .advanced
  topic := "linear_equations"
  steps := numbered [
    plain "2(x + 3) = 14" .distribute
      "Apply distributive property: 2(x + 3) = 2x + 6",
    onBoth "2x + 6 = 14" .subtractBothSides (.int 6)
      "Subtract 6 from both sides",
    plain "2x = 14 - 6" .simplify
      "Simplify the right side",
    onBoth "2x = 8" .divideBothSides (.int 2)
      "Divide both sides by 2",
    plain "x = 4" .solution
      "Solution found: x = 4"]
  playable := by decide

/-! ## Quadratic -/

/-- The lesson on `x² = 16`. -/
def quad001 : Lesson where
  id := "quad_001"
  name := "Perfect Square"
  equation := "x² = 16"
  difficulty := .intermediate
  topic := "quadratic_equations"
  steps := numbered [
    plain "x² = 16" .squareRootBothSides
      "Take the square root of both sides",
    plain "x = ±√16" .simplify
      "Remember both positive and negative roots",
    plain "x = ±4" .solution
      "Solutions: x = 4 or x = -4"]
  playable := by decide

/-- The lesson on `x² + 5x + 6 = 0`. -/
def quad002 : Lesson where
  id := "quad_002"
  name := "Factoring Simple"
  equation := "x² + 5x + 6 = 0"
  difficulty := .intermediate
  topic := "quadratic_equations"
  steps := numbered [
    plain "x² + 5x + 6 = 0" .factor
      "Find two numbers that multiply to 6 and add to 5: 2 and 3",
    plain "(x + 2)(x + 3) = 0" .zeroProductProperty
      "If the product equals zero, one factor must be zero",
    plain "x + 2 = 0  or  x + 3 = 0" .solveEach
      "Solve each equation separately",
    plain "x = -2  or  x = -3" .solution
      "Solutions: x = -2 or x = -3"]
  playable := by decide

/-- The lesson on `x² + 3x - 4 = 0`. -/
def quad003 : Lesson where
  id := "quad_003"
  name := "Quadratic Formula"
  equation := "x² + 3x - 4 = 0"
  difficulty := .advanced
  topic := "quadratic_equations"
  steps := numbered [
    plain "x² + 3x - 4 = 0" .identifyCoefficients
      "Identify: a = 1, b = 3, c = -4",
    plain "x = (-b ± √(b² - 4ac)) / 2a" .quadraticFormula
      "Apply the quadratic formula",
    plain "x = (-3 ± √(3² - 4(1)(-4))) / 2(1)" .substitute
      "Substitute the values",
    plain "x = (-3 ± √(9 + 16)) / 2" .simplifyDiscriminant
      "Simplify under the square root",
    plain "x = (-3 ± √25) / 2" .simplify
      "Continue simplifying",
    plain "x = (-3 ± 5) / 2" .finalCalculation
      "Calculate both solutions",
    plain "x = 1  or  x = -4" .solution
      "Solutions: x = 1 or x = -4"]
  playable := by decide

/-! ## Systems -/

/-- The lesson on `x + y = 5 and 2x - y = 1`. -/
def sys001 : Lesson where
  id := "sys_001"
  name := "Substitution Method"
  equation := "x + y = 5\n2x - y = 1"
  difficulty := .intermediate
  topic := "systems_of_equations"
  steps := numbered [
    plain "x + y = 5\n2x - y = 1" .solveForVariable
      "Solve the first equation for y: y = 5 - x",
    plain "y = 5 - x\n2x - y = 1" .substitute
      "Substitute y = 5 - x into the second equation",
    plain "2x - (5 - x) = 1" .simplify
      "Distribute the negative sign",
    plain "2x - 5 + x = 1" .combineLikeTerms
      "Combine like terms",
    plain "3x - 5 = 1" .solveForX
      "Add 5 to both sides",
    plain "3x = 6" .divide
      "Divide by 3",
    plain "x = 2" .substituteBack
      "Substitute x = 2 back: y = 5 - 2 = 3",
    plain "x = 2, y = 3" .solution
      "Solution: (2, 3)"]
  playable := by decide

/-! ## Exponential -/

/-- The lesson on `2^x = 8`. -/
def exp001 : Lesson where
  id := "exp_001"
  name := "Simple Exponential"
  equation := "2^x = 8"
  difficulty := .intermediate
  topic := "exponential_equations"
  steps := numbered [
    plain "2^x = 8" .commonBase
      "Rewrite 8 as a power of 2: 8 = 2³",
    plain "2^x = 2³" .equateExponents
      "If bases are equal, exponents must be equal",
    plain "x = 3" .solution
      "Solution: x = 3"]
  playable := by decide

/-- The lesson on `log₂(x) = 3`. -/
def log001 : Lesson where
  id := "log_001"
  name := "Simple Logarithm"
  equation := "log₂(x) = 3"
  difficulty := .intermediate
  topic := "logarithmic_equations"
  steps := numbered [
    plain "log₂(x) = 3" .convertToExponential
      "Convert to exponential form: 2³ = x",
    plain "2³ = x" .calculate
      "Calculate 2³",
    plain "x = 8" .solution
      "Solution: x = 8"]
  playable := by decide

/-! ## Looking lessons up -/

/-- The lessons by category. -/
def categories : List (String × List Lesson) :=
  [("linear_basic", [lin001, lin002, lin003, lin004, lin005, lin006]),
    ("linear_advanced", [lin007, lin008]),
    ("quadratic", [quad001, quad002, quad003]),
    ("systems", [sys001]),
    ("exponential", [exp001, log001])]

/-- All lessons, in order. -/
def lessons : List Lesson := categories.flatMap Prod.snd

/-- The lesson with an identifier. -/
def find? (id : String) : Option Lesson := lessons.find? (·.id == id)

/-- The lessons of a difficulty. -/
def ofDifficulty (d : Difficulty) : List Lesson := lessons.filter (·.difficulty = d)

/-- The lessons on a topic. -/
def onTopic (topic : String) : List Lesson := lessons.filter (·.topic == topic)

/-- The topics, in the order of the lessons. -/
def topics : List String := (lessons.map Lesson.topic).eraseDups

end EquationStudio.Catalog
