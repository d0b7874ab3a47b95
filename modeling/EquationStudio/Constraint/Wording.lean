import EquationStudio.Constraint.Basic

/-!
# Constraints in words

A constraint is described by a sign and its numbers. Whole numbers stand without a point at any
size; a number too large for a double cannot be described.
-/

namespace EquationStudio

/-- A number in a description. -/
def Number.described (v : Number) : Except Fault String :=
  match v with
  | .whole n =>
    if (FiniteDouble.ofInt? n).isSome then .ok (toString n)
    else .error (.datum .tooLargeForDouble)
  | .real x =>
    match x.toInt? with
    | some n => .ok (toString n)
    | none => .ok x.write

/-- A rule in words. -/
def Rule.describe : Rule → Except Fault String
  | .comparison .notEqual bound => return "≠ " ++ (← bound.described)
  | .comparison .greater bound => return "> " ++ (← bound.described)
  | .comparison .less bound => return "< " ++ (← bound.described)
  | .comparison .equal bound => return "= " ++ (← bound.described)
  | .range low high lowInclusive highInclusive => do
    let left := if lowInclusive then "[" else "("
    let right := if highInclusive then "]" else ")"
    return "∈ " ++ left ++ (← low.described) ++ ", " ++ (← high.described) ++ right
  | .domain d => .ok ("∈ " ++ d.name)
  | .sign .positive => .ok "> 0"
  | .sign .negative => .ok "< 0"
  | .sign .nonZero => .ok "≠ 0"
  | .prime => .ok "must be prime"
  | .perfectSquare => .ok "must be perfect square"
  | .parity p => .ok ("must be " ++ p.name)
  | .fibonacci => .ok "must be Fibonacci number"
  | .divisible divisor => return "divisible by " ++ (← divisor.described)

/-- A constraint in words. -/
def Constraint.describe (c : Constraint) : Except Fault String := c.rule.describe

end EquationStudio
