import EquationStudio.Algebra.Measure
import EquationStudio.Algebra.Polynomial

/-!
# Expressions as fractions

Every expression is one fraction: a sum over the product of the denominators of its terms. In lowest
terms, numerator and denominator are polynomials in what cannot be taken apart, without a common
divisor and with whole coefficients.
-/

namespace EquationStudio.Expr

/-- The greatest number of which all the given ones are whole multiples. -/
def content (qs : List Rat) : Rat := qs.foldl gcdRat 0

/-- The content of the terms of a sum, and the terms without it. -/
def primitiveTerms (ts : List Expr) : Rat × List Expr :=
  let c := content (ts.map fun t => t.splitCoefficient.1)
  (c, ts.map (multiple c⁻¹))

/-- A rational multiple in which a sum is not multiplied out. -/
def keepFactor (q : Rat) (e : Expr) : Expr :=
  match e with
  | sum ts => if q = 1 then sum ts else if q = -1 then multiple q e else product [number q, sum ts]
  | e => multiple q e

/-- Whether an exponent is known to be whole. -/
def isWholeNumber : Expr → Bool
  | number q => q.den = 1
  | _ => false

/-- A positive number. -/
def isPositiveNumber : Expr → Bool
  | number q => 0 < q
  | _ => false

/-- Puts a numerator under its denominator. -/
def addOver (n d : Expr) : List (Expr × List Expr) → List (Expr × List Expr)
  | [] => [(d, [n])]
  | g :: gs => if g.1 == d then (d, g.2 ++ [n]) :: gs else g :: addOver n d gs

/-- The sum of fractions as one fraction. -/
def sumOfFractions (groups : List (Expr × Expr)) : Expr × Expr :=
  let denominators := groups.map Prod.snd
  let terms := groups.zipIdx.map fun g => productOf (g.1.1 :: denominators.eraseIdx g.2)
  (sumOf terms, productOf denominators)

mutual

/-- The numerator and the denominator of an expression. -/
def fraction : Expr → Expr × Expr
  | number q => (number q.num, number q.den)
  | power b x =>
    let (base, exponent) := (power b x).splitPower
    let (n, d) := if base == b then fraction b else (base, one)
    let (n, d) := if exponent.isWholeNumber || d.isPositiveNumber then (n, d) else (base, one)
    if exponent.isNegative then
      let opposite := multiple (-1) exponent
      (pow d opposite, pow n opposite)
    else (pow n exponent, pow d exponent)
  | product fs =>
    let parts := fractions fs
    (productOf (parts.map Prod.fst), productOf (parts.map Prod.snd))
  | sum ts =>
    let c := content (ts.map fun t => t.splitCoefficient.1)
    let parts := (fractions ts).map fun p =>
      let (n, d) := (multiple c⁻¹ p.1, p.2)
      let (q, body) := n.splitCoefficient
      let (r, under) := d.splitCoefficient
      let ratio := q / r
      (scaled ratio.num body, scaled ratio.den under)
    let grouped := (parts.foldl (fun groups p => addOver p.1 p.2 groups) []).map fun g =>
      (sumOf g.2, g.1)
    let (n, d) := match grouped with
      | [g] => g
      | groups => sumOfFractions groups
    (keepFactor c.num n, keepFactor c.den d)
  | e => (e, one)

/-- The fractions of the expressions in a list. -/
def fractions : List Expr → List (Expr × Expr)
  | [] => []
  | e :: es => fraction e :: fractions es

end

/-- An expression as a fraction; a number below the stroke is not multiplied out. -/
def overOne (e : Expr) : Expr :=
  match e.fraction with
  | (n, number d) => keepFactor d⁻¹ n
  | (n, d) => div n d

mutual

/-- An expression of which every part is one fraction. -/
def combined : Expr → Expr
  | power b x => overOne (pow (combined b) (combined x))
  | product fs => overOne (productOf (combinedList fs))
  | sum ts => overOne (sumOf (combinedList ts))
  | e => e

/-- The expressions of a list, with every part one fraction. -/
def combinedList : List Expr → List Expr
  | [] => []
  | e :: es => combined e :: combinedList es

end

/-! ## Lowest terms -/

/-- Adds an expression to a list that has none twice. -/
def insertNew (e : Expr) (es : List Expr) : List Expr := if es.contains e then es else es ++ [e]

mutual

/-- What an expression is a polynomial in, added to a list. -/
def generators (known : List Expr) : Expr → List Expr
  | number _ => known
  | sum ts => generatorsOf known ts
  | product fs => generatorsOf known fs
  | power (sum ts) (number q) =>
    if q.den = 1 then generatorsOf known ts
    else insertNew (power (sum ts) (number q)).decompose.1 known
  | e => insertNew e.decompose.1 known

/-- What the expressions of a list are polynomials in, added to a list. -/
def generatorsOf (known : List Expr) : List Expr → List Expr
  | [] => known
  | e :: es => generatorsOf (generators known e) es

end

/-- The greatest degree of a polynomial that is written out. -/
abbrev degreeLimit : Nat := 400

/-- The power of a generator, if its exponent is not negative and not too great. -/
def generatorPower? (gens : List Expr) (e : Expr) : Option (Polynomial gens.length) := do
  let (base, k) := e.decompose
  let i ← gens.findIdx? (· == base)
  let g ← Polynomial.generator? gens.length i
  if k < 0 ∨ (degreeLimit : Int) < k then none else some (Polynomial.pow _ g k.toNat)

/-- The greatest exponent to which a sum is multiplied out. -/
abbrev expansionLimit : Nat := 40

mutual

/-- An expression as a polynomial in the given generators. -/
def polynomial? (gens : List Expr) : Expr → Option (Polynomial gens.length)
  | number q => some (Polynomial.constant _ q)
  | sum ts => polynomialSum? gens ts
  | product fs => polynomialProduct? gens fs
  | power (sum ts) (number q) =>
    if q.den = 1 then
      if q.num < 0 ∨ (expansionLimit : Int) < q.num then none
      else (polynomialSum? gens ts).map fun p => Polynomial.pow _ p q.num.toNat
    else generatorPower? gens (power (sum ts) (number q))
  | e => generatorPower? gens e

/-- The sum of expressions as a polynomial. -/
def polynomialSum? (gens : List Expr) : List Expr → Option (Polynomial gens.length)
  | [] => some (Polynomial.zero _)
  | e :: es => do return Polynomial.add _ (← polynomial? gens e) (← polynomialSum? gens es)

/-- The product of expressions as a polynomial. -/
def polynomialProduct? (gens : List Expr) : List Expr → Option (Polynomial gens.length)
  | [] => some (Polynomial.constant _ 1)
  | e :: es => do return Polynomial.mul _ (← polynomial? gens e) (← polynomialProduct? gens es)

end

/-- The expression that a polynomial in the given generators stands for. -/
def ofPolynomial (gens : List Expr) (p : Polynomial gens.length) : Expr :=
  sumOf ((Polynomial.terms _ p).map fun t =>
    productOf (number t.2 :: (gens.zip t.1).map fun g => pow g.1 (number g.2)))

/-- The content of a polynomial, with the sign of its leading coefficient. -/
def signedContent (n : Nat) (p : Polynomial n) : Rat :=
  let c := content ((Polynomial.terms n p).map Prod.snd)
  if Polynomial.leading n p < 0 then -c else c

/-- A fraction of polynomials in lowest terms, with whole coefficients and a positive leading
coefficient below. -/
def cancelPolynomials (n : Nat) (p q : Polynomial n) : Polynomial n × Polynomial n :=
  let g := Polynomial.gcd n p q
  let p := Polynomial.quotient n p g
  let q := Polynomial.quotient n q g
  let (c, d) := (signedContent n p, signedContent n q)
  if c = 0 ∨ d = 0 then (p, q)
  else
    let ratio := c / d
    (Polynomial.scale n (c⁻¹ * ratio.num) p, Polynomial.scale n (d⁻¹ * ratio.den) q)

/-- An expression as a fraction in lowest terms. -/
def lowestTerms (e : Expr) : Expr :=
  let (n, d) := e.fraction
  let found := generators (generators [] n) d
  let keyed := (found.map fun g => (g.sortKey, g)).mergeSort fun a b => SortKey.le a.1 b.1
  let gens := keyed.map Prod.snd
  match polynomial? gens n, polynomial? gens d with
  | some p, some q =>
    let (p, q) := cancelPolynomials gens.length p q
    match ofPolynomial gens q with
    | number d => multiple d⁻¹ (ofPolynomial gens p)
    | d => div (ofPolynomial gens p) d
  | _, _ => e

end EquationStudio.Expr
