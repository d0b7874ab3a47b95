import EquationStudio.Algebra.Fraction

/-!
# Simplification

An expression is brought to one fraction, in lowest terms and with common factors taken out, and
the form with the fewest operations wins; of two forms with as many operations the one that comes
first. An expression that would grow is left alone.
-/

namespace EquationStudio.Expr

/-! ## Signs -/

mutual

/-- An expression in which no factor is a sum that is written with the opposite sign. -/
def signed : Expr → Expr
  | sum ts => sumOf (signedList ts)
  | product fs => productOf (signedFactors fs)
  | power b x =>
    let base := signed b
    if x.isWholeNumber && base.isNegative && base.isSum then
      productOf [pow minusOne x, pow (multiple (-1) base) x]
    else pow base (signed x)
  | e => e

/-- The expressions of a list, with their factors signed. -/
def signedList : List Expr → List Expr
  | [] => []
  | e :: es => signed e :: signedList es

/-- The factors of a list, signed themselves. -/
def signedFactors : List Expr → List Expr
  | [] => []
  | e :: es =>
    let f := signed e
    if f.isSum && f.isNegative then minusOne :: multiple (-1) f :: signedFactors es
    else f :: signedFactors es

end

/-! ## Powers of one base -/

/-- How often a whole base divides a number, counted down for its denominator. -/
def multiplicity (base : Rat) (q : Rat) : Int :=
  let b := base.num.natAbs
  if base.den ≠ 1 ∨ b < 2 then 0
  else
    let times (n : Nat) : Nat := (divideOut b (n.log2 + 1) n 0).1
    (times q.num.natAbs : Int) - times q.den

/-- Moves the powers of a base out of a coefficient into an exponent that is no number. -/
def absorb (state : Rat × List Expr) (p : Expr × Expr) : Rat × List Expr :=
  let (q, done) := state
  match p with
  | (number b, x) =>
    let m := if x.isNumber ∨ b ≤ 1 then 0 else multiplicity b q
    let rest := if m < 0 then q * b ^ m.natAbs else q / b ^ m.natAbs
    let (c, tail) := x.splitCoefficient
    let raised :=
      if m = 0 ∧ c.den = 1 ∧ 1 < c ∧ 0 < b ∧ isRaised b c.num.toNat ∧ tail != one then
        pow (number (naturalPower b c.num.toNat)) tail
      else pow (number b) (add x (number m))
    (rest, done ++ [raised])
  | (b, x) => (q, done ++ [pow b x])

/-- Adds an exponent to the entry of a base. -/
def addBase (base exponent : Expr) : List (Expr × Expr) → List (Expr × Expr)
  | [] => [(base, exponent)]
  | p :: ps =>
    if p.1 == base then (base, add p.2 exponent) :: ps else p :: addBase base exponent ps

/-- A product in which every base occurs once. -/
def joinedProduct (fs : List Expr) : Expr :=
  let numbers := numbersProduct (fs.filter isNumber)
  let powers := (fs.filter (!·.isNumber)).foldl (fun ps f =>
    let (b, x) := f.splitPower
    if b.isPower then addBase f one ps else addBase b x ps) []
  let (q, joined) := powers.foldl absorb (numbers, [])
  productOf (number q :: joined)

/-- An expression in which the terms of a sum have every base once. -/
def joined : Expr → Expr
  | product fs => joinedProduct fs
  | power b x => joinedProduct [power b x]
  | sum ts => sumOf (ts.map fun t => joinedProduct t.factors)
  | e => e

/-! ## Common factors -/

/-- A term with its coefficient and the exponents of its factors. -/
structure Monomial where
  coefficient : Rat := 1
  powers : List (Expr × Int) := []

/-- The exponent of a base in a monomial. -/
def Monomial.exponent (m : Monomial) (base : Expr) : Int :=
  ((m.powers.find? (·.1 == base)).map (·.2)).getD 0

/-- Multiplies a factor into a monomial. The content of a sum goes into the coefficient. -/
def Monomial.put (m : Monomial) (f : Expr) : Monomial :=
  match f with
  | number q => { m with coefficient := m.coefficient * q }
  | f =>
    let (base, k) := f.decompose
    let (c, base) := match base with
      | sum ts =>
        let (c, inner) := primitiveTerms ts
        if isRaised c k.natAbs then (c, sumOf inner) else (1, sum ts)
      | b => (1, b)
    let c := naturalPower (if k < 0 then c⁻¹ else c) k.natAbs
    { coefficient := m.coefficient * c
      powers := m.powers.filter (·.1 != base) ++ [(base, m.exponent base + k)] }

/-- A term as a monomial. -/
def monomial (e : Expr) : Monomial := e.factors.foldl Monomial.put {}

/-- The exponent that a base has in every one of some monomials, nearest to zero. -/
def commonExponent (ms : List Monomial) (base : Expr) : Int :=
  let ks := ms.map (·.exponent base)
  if ks.all (0 < ·) then ks.foldl min (ks.headD 0)
  else if ks.all (· < 0) then ks.foldl max (ks.headD 0)
  else 0

/-- A power with a whole exponent. -/
def wholePowerOf (base : Expr) (k : Int) : Expr := pow base (number k)

/-- A rational multiple; with `spread`, a fraction is multiplied into a sum where that makes some
coefficient whole. -/
def attach (spread : Bool) (q : Rat) (e : Expr) : Expr :=
  match e with
  | sum ts =>
    if spread ∧ q.den ≠ 1 ∧ ts.any (fun t => (t.splitCoefficient.1 * q).den = 1) then multiple q e
    else if q = 1 then e
    else product [number q, e]
  | e => keepFactor q e

/-- A sum with the common factors of its terms taken out, over a common denominator if
`overDenominator`. -/
def factored (overDenominator spread : Bool) (ts : List Expr) : Expr :=
  match ts with
  | [] => zero
  | [t] => t
  | ts =>
    let ms := ts.map monomial
    let bases := ms.foldl (fun bs m => m.powers.foldl (fun bs p => insertNew p.1 bs) bs) []
    let c := content (ms.map (·.coefficient))
    let common := bases.map fun b => (b, commonExponent ms b)
    let rest (m : Monomial) : List (Expr × Int) :=
      common.map fun b => (b.1, m.exponent b.1 - b.2)
    let below : List (Expr × Int) := bases.map fun b =>
      (b, if overDenominator then
        ms.foldl (fun k m => max k (-(m.exponent b - commonExponent ms b))) 0 else 0)
    let numerators := ms.map fun m =>
      productOf (number (m.coefficient / c) ::
        ((rest m).zip below).map fun p => wholePowerOf p.1.1 (p.1.2 + p.2.2))
    let (d, numerator) := match sumOf numerators with
      | sum ns => if overDenominator then
          let (d, ns) := primitiveTerms ns
          (d, sumOf ns)
        else (1, sum ns)
      | e => (1, e)
    let outside := common.map fun b => wholePowerOf b.1 b.2
    let under := below.map fun b => wholePowerOf b.1 (-b.2)
    attach spread (c * d) (productOf (outside ++ numerator :: under))

mutual

/-- An expression with every sum over a common denominator and its common factors taken out. -/
def together : Expr → Expr
  | sum ts => factored true false (togetherList ts)
  | product fs => productOf (togetherList fs)
  | power b x => pow (together b) (together x)
  | e => e

/-- The expressions of a list, each together. -/
def togetherList : List Expr → List Expr
  | [] => []
  | e :: es => together e :: togetherList es

end

/-- The content of a factor, and the factor without it. -/
def splitContent : Expr → Rat × Expr
  | number q => if q < 0 then (-q, minusOne) else (q, one)
  | sum ts =>
    let (c, ts') := primitiveTerms ts
    if c.den ≠ 1 ∧ ts'.any (fun t => (t.splitCoefficient.1 / (c.den : Rat)).den = 1) then
      (c.num, multiple (mkRat 1 c.den) (sumOf ts'))
    else (c, sumOf ts')
  | power (sum ts) (number k) =>
    let (c, inner) := primitiveTerms ts
    if k.den = 1 ∧ 0 < k ∧ isRaised c k.num.toNat then
      (naturalPower c k.num.toNat, pow (sumOf inner) (number k))
    else (1, power (sum ts) (number k))
  | e => (1, e)

mutual

/-- An expression with the common factors of its sums taken out. Where all terms of a sum are
negative, the sign is taken out as well if `takeSign`. -/
def factorOut (takeSign : Bool) : Expr → Expr
  | sum ts =>
    let (c, body) := splitContent (sum ts)
    let inner := match body with
      | sum ts => ts
      | e => [e]
    let terms := factorOutList takeSign ts |>.map (multiple c⁻¹)
    let negative := inner.all isNegative
    let terms := if negative then terms.map (multiple (-1)) else terms
    let e := factored false true terms
    if negative then
      if c = 1 then (if takeSign then product [minusOne, e] else multiple (-1) e)
      else attach true (-c) e
    else attach true c e
  | product fs =>
    let parts := fs.map splitContent
    let c := parts.foldl (fun c p => c * p.1) 1
    let sameContent := parts.all fun p => p.1 = 1
    if sameContent then productOf (factorOutList takeSign fs)
    else keepFactor c (productOf (parts.map Prod.snd))
  | power b x => pow (factorOut takeSign b) (factorOut takeSign x)
  | e => e

/-- The expressions of a list, with common factors taken out. -/
def factorOutList (takeSign : Bool) : List Expr → List Expr
  | [] => []
  | e :: es => factorOut takeSign e :: factorOutList takeSign es

end

/-! ## Products of sums -/

/-- The products of one term from each of two sums. -/
def crossTerms (as bs : List Expr) : List Expr :=
  as.flatMap fun a => bs.map fun b => productOf [a, b]

/-- An expression with the sums among its factors multiplied out. -/
def multipliedOut (e : Expr) : Expr :=
  match e with
  | product fs => sumOf (fs.foldl (fun ts f => crossTerms ts f.terms) [one])
  | sum ts => sumOf (ts.map fun t => match t with
      | product fs => sumOf (fs.foldl (fun ts f => crossTerms ts f.terms) [one])
      | t => t)
  | e => e

/-- An expression with a number multiplied into the only sum that it multiplies. -/
def spreadOut : Expr → Expr
  | product [number q, sum ts] => multiple q (sum ts)
  | e => e

/-! ## The simplest form -/

/-- A form with as few operations as the steps here reach. -/
def reduced (given : Expr) : Expr :=
  let whole := spreadOut (joined given.combined)
  let lowest := whole.lowestTerms
  let best := shortest (shortest whole.together [lowest.together]) [lowest, whole]
  let best := best.factorOut false
  let short := shortest best.joined [best]
  let short := shortest short [short.lowestTerms]
  let short := shortest short [short.factorOut true, short.multipliedOut]
  let found := short.spreadOut
  if 17 * given.operations < 10 * found.operations then given else found

/-- An expression in its simplest form. -/
def simplified (e : Expr) : Expr :=
  match e with
  | sum _ | product _ | power _ _ =>
    match e.signed with
    | e@(sum _) | e@(product _) | e@(power _ _) => e.reduced
    | e => e
  | e => e

end EquationStudio.Expr
