import EquationStudio.Lesson.Action
import EquationStudio.Number

/-!
# Advice

For each action there is a tip, which explains the idea behind it, and a nudge, which says what to
do and names the operand where there is one.
-/

namespace EquationStudio.Action

/-- The idea behind an action. -/
def tip : Action → String
  | addBothSides =>
    "Remember: Whatever you do to one side of an equation, " ++
      "you must do to the other side to keep it balanced."
  | subtractBothSides =>
    "Subtraction is the opposite of addition. We subtract to undo addition."
  | multiplyBothSides =>
    "Multiplication is the opposite of division. We multiply to undo division."
  | divideBothSides =>
    "Division is the opposite of multiplication. We divide to undo multiplication."
  | distribute => "The distributive property: a(b + c) = ab + ac"
  | factor => "Factoring is the reverse of distributing. Look for common factors or patterns."
  | squareRootBothSides =>
    "Remember that square roots have both positive and negative solutions."
  | combineLikeTerms => "Like terms have the same variable with the same exponent."
  | simplify => "Always simplify your expressions to make them easier to work with."
  | solution =>
    "Great job! Always check your solution by substituting back into the original equation."
  | _ => "Each step moves us closer to isolating the variable."

/-- An operand in a sentence: a number as its literal, all else as it is. -/
def operandText : Datum → Except Fault String
  | .int n => integerText n
  | .float x => (Datum.float x).literal
  | d => d.plain

/-- The words for an action on an operand, if they name it. -/
def nudgeWith? (operand : String) : Action → Option String
  | addBothSides => some s!"Try adding {operand} to both sides of the equation."
  | subtractBothSides => some s!"Try subtracting {operand} from both sides of the equation."
  | multiplyBothSides => some s!"Try multiplying both sides by {operand}."
  | divideBothSides => some s!"Try dividing both sides by {operand}."
  | _ => none

/-- The words for an action, whatever its operand. -/
def generalNudge : Action → String
  | distribute => "Apply the distributive property to expand the expression."
  | factor => "Look for common factors or special patterns like difference of squares."
  | simplify | simplifyDiscriminant | combineLikeTerms =>
    "Combine like terms and perform the arithmetic operations."
  | substitute | substituteBack => "Replace the variable with the expression from another equation."
  | _ => "Think about what operation will help isolate the variable."

/-- What to do, with the operand where there is one. -/
def nudge (a : Action) (operand : Datum) : Except Fault String := do
  if operand.isGiven then
    return (a.nudgeWith? (← operandText operand)).getD a.generalNudge
  else return a.generalNudge

end EquationStudio.Action
