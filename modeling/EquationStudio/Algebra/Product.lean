import EquationStudio.Algebra.Radical
import EquationStudio.Algebra.Sum

/-!
# Products and powers in normal form

A product multiplies the numbers among its factors, adds the exponents of equal bases, and joins
roots of whole numbers: those with one exponent under one root, common divisors with the exponents
added. A power of a number with a rational exponent is written in its simplest form; a power of a
product with a whole exponent is taken factor by factor. A number times a sum is multiplied out.

The infinity absorbs all factors that are known not to be zero; times zero it is undefined. An
expression to the power zero is one, also if it is infinite or undefined.

Products and powers need each other. The functions here take fuel, which no expression of ordinary
size uses up; without fuel they leave a product or a power as it stands.
-/

namespace EquationStudio.Expr

/-- The factors of a product, by what can be done with them. -/
structure ProductParts where
  coefficient : Rat := 1
  infinite : Bool := false
  undefined : Bool := false
  /-- The exponent of minus one; the imaginary unit counts as a half. -/
  turn : Rat := 0
  /-- Positive numbers under roots, with their exponents. -/
  radicals : List (Rat × Rat) := []
  /-- Positive numbers with exponents that are no numbers. -/
  exponentials : List (Expr × Expr) := []
  /-- All other bases, with their exponents. -/
  powers : List (Expr × Expr) := []

/-- Adds an exponent to the entry of a base under a root. -/
def addRadical (base exponent : Rat) : List (Rat × Rat) → List (Rat × Rat)
  | [] => [(base, exponent)]
  | r :: rs =>
    if r.1 = base then (base, r.2 + exponent) :: rs else r :: addRadical base exponent rs

/-- Multiplies a number into the coefficient. -/
def ProductParts.scale (s : ProductParts) (q : Rat) : ProductParts :=
  if s.infinite then (if q = 0 then { s with undefined := true } else s)
  else { s with coefficient := s.coefficient * q }

/-- Multiplies the infinity in. -/
def ProductParts.blowUp (s : ProductParts) : ProductParts :=
  if !s.infinite && s.coefficient = 0 then { s with undefined := true }
  else { s with infinite := true }

/-- Adds an exponent to the entries of one base, by what the exponent is but for a coefficient. -/
def addExponent (tail : Expr) (q : Rat) : List (Expr × Rat) → List (Expr × Rat)
  | [] => [(tail, q)]
  | t :: ts => if t.1 == tail then (tail, t.2 + q) :: ts else t :: addExponent tail q ts

/-- Adds a power to the entries of its base. -/
def addPower (base tail : Expr) (q : Rat) :
    List (Expr × List (Expr × Rat)) → List (Expr × List (Expr × Rat))
  | [] => [(base, [(tail, q)])]
  | p :: ps =>
    if p.1 == base then (base, addExponent tail q p.2) :: ps else p :: addPower base tail q ps

/-- Powers with equal bases, and exponents that agree but for a coefficient, made one. -/
def gather (powers : List (Expr × Expr)) : List (Expr × Expr) :=
  let grouped := powers.foldl (fun groups p =>
    let (q, tail) := p.2.splitCoefficient
    addPower p.1 tail q groups) []
  grouped.flatMap fun g => g.2.map fun t => (g.1, multiple t.2 t.1)

/-- Bases with equal exponents, listed under the exponent. -/
def byExponent {α : Type} [BEq α] (powers : List (Expr × α)) : List (α × List Expr) :=
  powers.foldl (fun groups p =>
    if groups.any (·.1 == p.2) then
      groups.map fun g => if g.1 == p.2 then (g.1, g.2 ++ [p.1]) else g
    else groups ++ [(p.2, [p.1])]) []

/-- The product of positive numbers. -/
def numbersProduct (es : List Expr) : Rat :=
  es.foldl (fun q e => match e with
    | number p => q * p
    | _ => q) 1

/-- The common divisor of two positive rationals: of the numerators over a common denominator. -/
def gcdRat (p q : Rat) : Rat :=
  mkRat (Nat.gcd (p.num.natAbs * q.den) (q.num.natAbs * p.den)) (p.den * q.den)

/-- The greatest exponent to which a rational is raised in search of a simpler form. -/
abbrev exponentLimit : Nat := Nat.pow 2 28

/-- Whether a power of a rational is worked out in search of a simpler form: powers of zero, one and
minus one always are. -/
def isRaised (q : Rat) (n : Nat) : Bool := q = 0 ∨ q = 1 ∨ q = -1 ∨ n ≤ exponentLimit

/-- A natural power of a rational. Powers of zero, one and minus one are taken without
multiplying. -/
def naturalPower (q : Rat) (n : Nat) : Rat :=
  if n = 0 ∨ q = 1 then 1
  else if q = 0 then 0
  else if q = -1 then if n % 2 = 0 then 1 else -1
  else q ^ n

/-- A rational to a whole exponent; zero to a negative exponent is infinite. -/
def wholePower (q : Rat) (n : Int) : Expr :=
  if q = 0 ∧ n < 0 then infinite
  else number (if n < 0 then naturalPower q⁻¹ n.natAbs else naturalPower q n.natAbs)

/-- A factor of a product that is known not to be zero. -/
def isSurelyNonzero (e : Expr) : Bool := e.isConstant

mutual

/-- The product of expressions. -/
def productWithin : Nat → List Expr → Expr
  | 0, es => product es
  | fuel + 1, es => finishProduct fuel (es.foldl (takeFactor fuel) {})

/-- Takes one more factor. -/
def takeFactor : Nat → ProductParts → Expr → ProductParts
  | 0, s, e => { s with powers := s.powers ++ [(e, one)] }
  | fuel + 1, s, e =>
    match e with
    | number q => s.scale q
    | undefined => { s with undefined := true }
    | infinite => s.blowUp
    | imaginary => { s with turn := s.turn + 1 / 2 }
    | product fs => fs.foldl (takeFactor fuel) s
    | power _ _ =>
      match e.splitPower with
      | (number p, number r) =>
        if r.den = 1 ∨ r < 0 then takeFactor fuel s (powerWithin fuel (number p) (number r))
        else
          let s := if p < 0 then { s with turn := s.turn + r } else s
          let base := if p < 0 then -p else p
          if base = 1 then s else { s with radicals := addRadical base r s.radicals }
      | (number p, x) =>
        if 0 < p then { s with exponentials := s.exponentials ++ [(number p, x)] }
        else { s with powers := s.powers ++ [(number p, x)] }
      | (b, x) => { s with powers := s.powers ++ [(b, x)] }
    | e => { s with powers := s.powers ++ [(e, one)] }

/-- The powers of gathered bases; bases that only the powers bring to light are gathered again. -/
def raise : Nat → Nat → List (Expr × Expr) → List Expr
  | 0, _, _ => []
  | fuel + 1, rounds, powers =>
    let gathered := (gather powers).filter fun p => p.2 != zero
    let raised := gathered.map fun p =>
      if p.2 == one then (p.1, p)
      else
        let r := powerWithin fuel p.1 p.2
        (r, if r.isPower && !p.1.isPower then r.splitPower else p)
    let bases := raised.map (·.2.1)
    let changed := (raised.zip gathered).any fun r => r.1.2.1 != r.2.1
    match rounds with
    | 0 => raised.map Prod.fst
    | rounds + 1 =>
      if changed && bases.eraseDups.length != bases.length then
        raise fuel rounds (raised.map Prod.snd)
      else raised.map Prod.fst

/-- Positive numbers under roots: exponents below one, and no common divisors. -/
def joinRoots : Nat → List (Rat × Rat) → List (Rat × Rat) → Rat × List (Expr × Rat)
  | 0, _, done => (1, done.map fun r => (number r.1, r.2))
  | _ + 1, [], _ => (1, [])
  | fuel + 1, (b, x) :: rest, done =>
    let step (acc : Rat × Rat × List (Rat × Rat) × List (Rat × Rat)) (r : Rat × Rat) :=
      let (b, q, grown, kept) := acc
      let g := gcdRat b r.1
      if b = 1 ∨ g = 1 then (b, q, grown, kept ++ [r])
      else
        let total := x + r.2
        let whole := total.floor
        let part : Rat := total - (whole : Rat)
        let q := q * g ^ whole.toNat
        let grown := if part = 0 then grown else grown ++ [(g, part)]
        (b / g, q, grown, kept ++ [(r.1 / g, r.2)])
    let (b, q, grown, kept) := rest.foldl step (b, 1, [], [])
    let own := if b = 1 then [] else (powerWithin fuel (number b) (number x)).factors
    let (q', others) := joinRoots fuel (kept ++ grown) done
    let roots := own.filterMap fun e => match e with
      | power c (number y) => some (c, y)
      | _ => none
    (q * q' * numbersProduct own, roots ++ others)

/-- The product of what was collected. -/
def finishProduct : Nat → ProductParts → Expr
  | 0, _ => undefined
  | fuel + 1, s =>
    if s.undefined then undefined
    else
      let powers := raise fuel 2 s.powers
      let exponentials := (byExponent (gather s.exponentials)).filterMap fun g =>
        if g.1 == zero then none
        else some (powerWithin fuel (number (numbersProduct g.2)) g.1)
      let combined := (byExponent (s.radicals.map fun r => (number r.1, r.2))).map fun g =>
        (numbersProduct g.2, g.1)
      let wholes := combined.foldl (fun q r => q * r.1 ^ r.2.floor.toNat) 1
      let fractions := (combined.map fun r => (r.1, r.2 - (r.2.floor : Rat))).filter (·.2 ≠ 0)
      let (q, roots) := joinRoots fuel fractions []
      let whole := s.turn.floor
      let part : Rat := s.turn - (whole : Rat)
      let sign : Rat := if whole % 2 = 0 then 1 else -1
      let grouped := (byExponent roots).map fun g => (number (numbersProduct g.2), g.1)
      let (turned, grouped) :=
        if part = 0 then ([], grouped)
        else if part = 1 / 2 then ([imaginary], grouped)
        else if grouped.any (·.2 = part) then
          ([], grouped.map fun g => if g.2 = part then (multiple (-1) g.1, g.2) else g)
        else ([power minusOne (number part)], grouped)
      let rootFactors := grouped.map fun g => powerWithin fuel g.1 (number g.2)
      let all := (powers ++ exponentials ++ turned ++ rootFactors).flatMap factors
      if all.any (fun e => e == undefined) then undefined
      else
        let numbers := numbersProduct (all.filter isNumber)
        let others := all.filter (!·.isNumber)
        let s := (s.scale (wholes * q * sign)).scale numbers
        let s := if others.contains infinite then s.blowUp else s
        let others := others.filter (· != infinite)
        if s.undefined then undefined
        else if s.infinite then
          match orderedFactors (others.filter (!·.isSurelyNonzero)) with
          | [] => infinite
          | fs => product (infinite :: fs)
        else if s.coefficient = 0 then zero
        else
          match orderedFactors others with
          | [] => number s.coefficient
          | [f] =>
            if s.coefficient = 1 then f
            else if f.isSum then multiple s.coefficient f
            else product [number s.coefficient, f]
          | fs => product (if s.coefficient = 1 then fs else number s.coefficient :: fs)

/-- A power of a rational with a rational exponent that is not whole. -/
def numberPower : Nat → Rat → Rat → Expr
  | 0, q, r => power (number q) (number r)
  | fuel + 1, q, r =>
    if q = 0 then if 0 < r then zero else infinite
    else if q = 1 then one
    else if q = -1 then
      let whole := r.floor
      let sign : Expr := if whole % 2 = 0 then one else minusOne
      let part : Rat := r - (whole : Rat)
      let root := if part = 1 / 2 then imaginary else power minusOne (number part)
      if whole % 2 = 0 then root else productWithin fuel [sign, root]
    else if r < 0 then
      if q < 0 then
        productWithin fuel [powerWithin fuel minusOne (number r),
          powerWithin fuel (number (-q)⁻¹) (number (-r))]
      else powerWithin fuel (number q⁻¹) (number (-r))
    else if q.den = 1 then
      let n := q.num.natAbs
      if r = 1 / 2 ∧ q < 0 then
        productWithin fuel [imaginary, powerWithin fuel (number (-q)) (number r)]
      else
        let signed (e : Expr) : Expr :=
          if q < 0 then productWithin fuel [e, powerWithin fuel minusOne (number r)] else e
        match exactRoot? n r.den with
        | some root => signed (number ((root : Rat) ^ r.num.natAbs))
        | none =>
          let parts := rootParts n r.num.natAbs r.den
          if parts.radicand = n ∧ parts.whole = 1 ∧ parts.reduced.isEmpty then
            power (number q) (number r)
          else
            let rest := powerWithin fuel (number parts.radicand)
              (number (mkRat parts.index r.den))
            let reduced := parts.reduced.map fun f =>
              powerWithin fuel (number f.1) (number f.2)
            signed (productWithin fuel (number parts.whole :: reduced ++ [rest]))
    else
      let whole := r.floor + 1
      let scale := number (mkRat 1 (Nat.pow q.den whole.toNat))
      let below := powerWithin fuel (number q.den) (number ((whole : Rat) - r))
      if q.num = 1 then productWithin fuel [below, scale]
      else
        productWithin fuel [powerWithin fuel (number q.num) (number r), below, scale]

/-- A power of a product with an exponent that is a fraction: positive constants leave the root. -/
def rootOfProduct : Nat → List Expr → Rat → Expr
  | 0, fs, r => power (product fs) (number r)
  | fuel + 1, fs, r =>
    let isPositive (e : Expr) : Bool := e.isConstant && e.sign? == some 1
    let negative := fs.filter fun e => match e with
      | number q => q < -1
      | _ => false
    let positive := fs.filter isPositive ++ negative.map (multiple (-1))
    let inside := (negative.map fun _ => minusOne) ++
      fs.filter fun e => !isPositive e && !negative.contains e
    let outside := positive.map fun e => powerWithin fuel e (number r)
    if outside.isEmpty then power (product fs) (number r)
    else
      let rest := if inside.isEmpty then [] else [power (productWithin fuel inside) (number r)]
      productWithin fuel (outside ++ rest)

/-- A power of a power, where the exponents may be multiplied. -/
def powerOfPower : Nat → Expr → Expr → Expr → Expr
  | 0, b, x, e => power (power b x) e
  | fuel + 1, b, x, e =>
    let (b', x') := (power b x).splitPower
    let joined := powerWithin fuel b' (productWithin fuel [x', e])
    let isWhole := match e with
      | number q => q.den = 1
      | _ => false
    let isSmall := match x' with
      | number q => -1 < q ∧ q < 1
      | _ => false
    let isRealExponent := x'.isConstant && x'.sign?.isSome
    let isPositive := b'.isConstant && b'.sign? == some 1
    if isWhole || isSmall || (isRealExponent && isPositive) then joined
    else power (power b x) e

/-- A power. -/
def powerWithin : Nat → Expr → Expr → Expr
  | 0, b, e => power b e
  | fuel + 1, b, e =>
    if e == infinite then undefined
    else if e == zero then one
    else if e == one then b
    else if b == undefined || e == undefined then undefined
    else if b == one then one
    else
      match b, e with
      | number q, number r => if r.den = 1 then wholePower q r.num else numberPower fuel q r
      | number q, e =>
        if q = 0 then
          if e.isConstant then
            match e.sign? with
            | some 1 => zero
            | some _ => infinite
            | none => power b e
          else
            let (c, tail) := e.splitCoefficient
            if c < 0 then powerWithin fuel infinite tail else power b tail
        else power b e
      | infinite, number r => if 0 < r then infinite else zero
      | imaginary, number r =>
        if r.den = 1 then
          match r.num % 4 with
          | 0 => one
          | 1 => imaginary
          | 2 => minusOne
          | _ => product [minusOne, imaginary]
        else
          let turns := (r / 2).floor
          let root := power imaginary (number (r - 2 * (turns : Rat)))
          if turns % 2 = 0 then root else product [minusOne, root]
      | product fs, number r =>
        if r.den = 1 then productWithin fuel (fs.map fun f => power f (number r))
        else rootOfProduct fuel fs r
      | sum [number p, i], number r =>
        let (q, unit) := i.splitCoefficient
        if r = -1 ∧ unit == imaginary then
          let norm := p * p + q * q
          let conjugate := sumOf [number p, scaled (-q) imaginary]
          if norm = 1 then conjugate else product [number norm⁻¹, conjugate]
        else power b e
      | power b' x, e => powerOfPower fuel b' x e
      | b, e => power b e

end

/-! ## Operations -/

/-- Fuel that no expression of ordinary size uses up. -/
abbrev ampleFuel : Nat := 400

/-- The product of expressions. -/
def productOf (es : List Expr) : Expr := productWithin ampleFuel es

/-- The product of two expressions. Numbers are multiplied at once. -/
def mul (a b : Expr) : Expr :=
  match a, b with
  | number p, number q => number (p * q)
  | a, b => productOf [a, b]

/-- The opposite of an expression. -/
def neg (a : Expr) : Expr := mul minusOne a

/-- The difference of two expressions. -/
def sub (a b : Expr) : Expr := add a (neg b)

/-- A power. Whole powers of numbers are taken at once. -/
def pow (b e : Expr) : Expr :=
  match b, e with
  | number q, number r => if r.den = 1 then wholePower q r.num else powerWithin ampleFuel b e
  | b, e => powerWithin ampleFuel b e

/-- The quotient of two expressions. -/
def div (a b : Expr) : Expr :=
  match a, b with
  | number p, number q =>
    if q = 0 then if p = 0 then undefined else infinite else number (p / q)
  | a, b => mul a (pow b minusOne)

end EquationStudio.Expr
