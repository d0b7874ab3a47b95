import EquationStudio.Algebra.Order

/-!
# Sums in normal form

A sum collects the numbers among its terms and the coefficients of terms that agree but for them.
The infinity absorbs every constant term; two infinities, or an undefined term, leave the sum
undefined.
-/

namespace EquationStudio.Expr

/-- What a sum collects. -/
structure SumParts where
  constant : Rat := 0
  infinite : Bool := false
  undefined : Bool := false
  /-- Terms without their coefficients, and the coefficients. -/
  terms : List (Expr × Rat) := []

/-- Adds a coefficient to the entry of a term. -/
def addCoefficient (body : Expr) (q : Rat) : List (Expr × Rat) → List (Expr × Rat)
  | [] => [(body, q)]
  | t :: ts => if t.1 == body then (body, t.2 + q) :: ts else t :: addCoefficient body q ts

/-- Takes one more term. -/
def SumParts.take (s : SumParts) (e : Expr) : SumParts :=
  match e with
  | .number q => { s with constant := s.constant + q }
  | .undefined => { s with undefined := true }
  | .infinite => if s.infinite then { s with undefined := true } else { s with infinite := true }
  | e =>
    let (q, body) := e.splitCoefficient
    { s with terms := addCoefficient body q s.terms }

/-- The sum of what was collected. -/
def SumParts.total (s : SumParts) : Expr :=
  if s.undefined then .undefined
  else
    let terms := (s.terms.filter (·.2 ≠ 0)).map fun t => scaled t.2 t.1
    let terms := if s.infinite then terms.filter (!·.isConstant) else terms
    let front := if s.infinite then [Expr.infinite]
      else if s.constant = 0 then [] else [number s.constant]
    let sorted := (terms.map fun t => (t.sortKey, t)).mergeSort fun a b => SortKey.le a.1 b.1
    match front ++ sorted.map Prod.snd with
    | [] => zero
    | [e] => e
    | es => sum es

/-- The sum of expressions. -/
def sumOf (es : List Expr) : Expr :=
  ((es.flatMap terms).foldl SumParts.take {}).total

/-- The sum of two expressions. Numbers are added at once. -/
def add (a b : Expr) : Expr :=
  match a, b with
  | number p, number q => number (p + q)
  | a, b => sumOf [a, b]

/-- A rational multiple of an expression; a sum is multiplied term by term. -/
def multiple (q : Rat) (e : Expr) : Expr :=
  let one (t : Expr) : Expr :=
    let (p, body) := t.splitCoefficient
    scaled (q * p) body
  match e with
  | sum ts => sumOf (ts.map one)
  | e => one e

end EquationStudio.Expr
