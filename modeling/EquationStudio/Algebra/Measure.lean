import EquationStudio.Algebra.Printing

/-!
# The size of an expression in operations

Of two forms of an expression the one with fewer operations is the simpler one. A sign, a stroke, a
power and each step from one operand to the next count one.
-/

namespace EquationStudio.Expr

/-- Whether a sum is written with the opposite sign: most of its terms are negative, or as many as
not and the sum comes before its opposite. -/
def isNegativeSum (ts : List Expr) (negative : Nat) : Bool :=
  let positive := ts.length - negative
  if negative < positive then false
  else if positive < negative then true
  else SortKey.compare (sum ts).sortKey (multiple (-1) (sum ts)).sortKey == .lt

mutual

/-- Whether an expression shows a minus sign that can be taken out. -/
def isNegative : Expr → Bool
  | number q => q < 0
  | product (number q :: _) => q < 0
  | sum ts => isNegativeSum ts (countNegative ts)
  | _ => false

/-- How many expressions of a list show a minus sign. -/
def countNegative : List Expr → Nat
  | [] => 0
  | e :: es => (if e.isNegative then 1 else 0) + countNegative es

end

/-- What a product has above and below the stroke. -/
def overStroke (e : Expr) : Expr × Expr :=
  let stroke := e.factors.foldl Stroke.put {}
  (productOf stroke.above, productOf stroke.below)

/-- The number of operations in an expression; `fuel` bounds its levels. -/
def operationsWithin : Nat → Expr → Nat
  | 0, _ => 0
  | fuel + 1, e =>
    match e with
    | number q => (if q < 0 then 1 else 0) + (if q.den = 1 then 0 else 1)
    | power b x =>
      if x == minusOne then operationsWithin fuel b + 1
      else operationsWithin fuel b + operationsWithin fuel x + 1
    | product fs =>
      let negative := (product fs).isNegative
      let positive := if negative then multiple (-1) (product fs) else product fs
      let sign := if negative then 1 else 0
      let (above, below) := positive.overStroke
      if below == one then
        match positive with
        | product fs => sign + (fs.length - 1) + (fs.map (operationsWithin fuel)).sum
        | e => sign + operationsWithin fuel e
      else if above.isNumber then sign + 1 + operationsWithin fuel below
      else
        let under := if below.isNumber then 0 else operationsWithin fuel below
        sign + 1 + operationsWithin fuel above + under
    | sum ts =>
      let positive := ts.map fun t => if t.isNegative then multiple (-1) t else t
      let sign := if ts.all isNegative then 1 else 0
      sign + (ts.length - 1) + (positive.map (operationsWithin fuel)).sum
    | _ => 0

/-- The number of operations in an expression. -/
def operations (e : Expr) : Nat := operationsWithin (2 * e.size + 8) e

/-- The first expression with the fewest operations. -/
def shortest (e : Expr) (others : List Expr) : Expr :=
  others.foldl (fun best other => if other.operations < best.operations then other else best) e

end EquationStudio.Expr
