import EquationStudio.Algebra.Expr

/-!
# Enclosures of real numbers

An interval with rational ends encloses a real number. Ends are kept short by rounding them outward
to a number of significant bits. Logarithms come from the series of the inverse hyperbolic tangent,
exponentials from their power series, each with a bound on what is left out, so more bits give
narrower intervals. Exponentials beyond `Interval.reach` are not worked out: they have no enclosure,
or one from zero on if they are small.
-/

namespace EquationStudio

/-- The real numbers from `low` to `high`. -/
structure Interval where
  low : Rat
  high : Rat

namespace Interval

/-- The greatest multiple of a power of two at or below `q`, with about `bits` significant bits. -/
def roundDown (bits : Nat) (q : Rat) : Rat :=
  if q.num = 0 then 0
  else
    let shift : Int := (bits : Int) - ((q.num.natAbs.log2 : Int) - q.den.log2)
    let scaled := q.num * Nat.pow 2 shift.toNat
    let den : Int := q.den * Nat.pow 2 (-shift).toNat
    mkRat (scaled.fdiv den * Nat.pow 2 (-shift).toNat) (Nat.pow 2 shift.toNat)

/-- The least such multiple at or above `q`. -/
def roundUp (bits : Nat) (q : Rat) : Rat := -roundDown bits (-q)

/-- The interval with its ends rounded outward. -/
def shorten (bits : Nat) (i : Interval) : Interval := ⟨roundDown bits i.low, roundUp bits i.high⟩

/-- One rational number. -/
def point (q : Rat) : Interval := ⟨q, q⟩

/-- Enclosure of a sum. -/
def add (bits : Nat) (a b : Interval) : Interval := shorten bits ⟨a.low + b.low, a.high + b.high⟩

/-- The lesser of two numbers. -/
def lesser (p q : Rat) : Rat := if p ≤ q then p else q

/-- The greater of two numbers. -/
def greater (p q : Rat) : Rat := if p ≤ q then q else p

/-- Enclosure of a product. -/
def mul (bits : Nat) (a b : Interval) : Interval :=
  let p := a.low * b.low
  let q := a.low * b.high
  let r := a.high * b.low
  let s := a.high * b.high
  shorten bits ⟨lesser (lesser p q) (lesser r s), greater (greater p q) (greater r s)⟩

/-- Enclosure of the opposite. -/
def neg (a : Interval) : Interval := ⟨-a.high, -a.low⟩

/-- Enclosure of the inverse of a number that is not zero. -/
def inverse? (bits : Nat) (a : Interval) : Option Interval :=
  if 0 < a.low ∨ a.high < 0 then some (shorten bits ⟨a.high⁻¹, a.low⁻¹⟩) else none

/-- Enclosure of a natural power, by squaring; `fuel` bounds the bits of the exponent. -/
def pow (bits : Nat) (a : Interval) : Nat → Nat → Interval
  | 0, _ => point 1
  | fuel + 1, n =>
    if n = 0 then point 1
    else
      let half := pow bits a fuel (n / 2)
      let square := mul bits half half
      if n % 2 = 0 then square else mul bits square a

/-- The terms `z, z³/3, z⁵/5, …` added up, `count` of them from the one with the given number. -/
def atanhTerms (bits : Nat) (square : Interval) : Nat → Nat → Interval → Interval → Interval
  | 0, _, _, total => total
  | count + 1, i, power, total =>
    let term := mul bits power (point (mkRat 1 (2 * i + 1)))
    atanhTerms bits square count (i + 1) (mul bits power square) (add bits total term)

/-- Enclosure of the inverse hyperbolic tangent of a rational of magnitude at most a third. -/
def atanh (bits : Nat) (z : Rat) : Interval :=
  let z' := shorten bits (point z)
  let count := bits / 3 + 2
  let total := atanhTerms bits (mul bits z' z') count 0 z' (point 0)
  let rest : Rat := mkRat 1 (Nat.pow 2 bits)
  shorten bits ⟨total.low - rest, total.high + rest⟩

/-- Enclosure of the natural logarithm of two. -/
def ln2 (bits : Nat) : Interval := mul bits (point 2) (atanh bits (mkRat 1 3))

/-- Enclosure of the natural logarithm of a positive rational. -/
def lnOf (bits : Nat) (q : Rat) : Interval :=
  let k : Int := (q.num.natAbs.log2 : Int) - q.den.log2
  let m := mkRat (q.num * Nat.pow 2 (-k).toNat) (q.den * Nat.pow 2 k.toNat)
  let (k, m) := if (3 : Rat) / 2 < m then (k + 1, m / 2) else if m < 3 / 4 then (k - 1, m * 2)
    else (k, m)
  add bits (mul bits (point k) (ln2 bits)) (mul bits (point 2) (atanh bits ((m - 1) / (m + 1))))

/-- Enclosure of the natural logarithm of a positive number. -/
def ln? (bits : Nat) (a : Interval) : Option Interval :=
  if 0 < a.low then some ⟨(lnOf bits a.low).low, (lnOf bits a.high).high⟩ else none

/-- The terms `1, r, r²/2, …` added up, `count` of them from the one with the given number. -/
def expTerms (bits : Nat) (r : Interval) : Nat → Nat → Interval → Interval → Interval
  | 0, _, _, total => total
  | count + 1, i, term, total =>
    expTerms bits r count (i + 1) (mul bits (mul bits term r) (point (mkRat 1 (i + 1))))
      (add bits total term)

/-- The exponent up to which exponentials are worked out. -/
abbrev reach : Nat := Nat.pow 2 17

/-- Enclosure of the exponential of a rational up to `reach`. -/
def expOf (bits : Nat) (y : Rat) : Interval :=
  if y < -reach then ⟨0, mkRat 1 (Nat.pow 2 reach)⟩
  else
    let l := ln2 bits
    let k : Int := (y / l.low + 1 / 2).floor
    let r := add bits (point y) (neg (mul bits (point k) l))
    let total := expTerms bits r (bits / 2 + 8) 0 (point 1) (point 0)
    let rest : Rat := mkRat 1 (Nat.pow 2 bits)
    let scale : Rat := if 0 ≤ k then (2 : Rat) ^ k.toNat else ((2 : Rat) ^ (-k).toNat)⁻¹
    shorten bits ⟨(total.low - rest) * scale, (total.high + rest) * scale⟩

/-- Enclosure of the exponential. -/
def exp? (bits : Nat) (a : Interval) : Option Interval :=
  if a.high ≤ reach then some ⟨(expOf bits a.low).low, (expOf bits a.high).high⟩ else none

/-- How many bits the integer parts of the ends and of their inverses have at most. -/
def size (a : Interval) : Nat :=
  let sizeOf (q : Rat) : Nat := ((q.num.natAbs.log2 : Int) - q.den.log2).natAbs + 1
  max (sizeOf a.low) (sizeOf a.high)

/-- Enclosure of a natural power: by squaring, or for large powers by way of logarithms. -/
def natPow? (bits : Nat) (a : Interval) (n : Nat) : Option Interval :=
  if n * a.size ≤ reach then some (a.pow bits (n.log2 + 1) n)
  else if 0 < a.low then do exp? bits (mul bits (point n) (← a.ln? bits))
  else do
    let p ← exp? bits (mul bits (point n) (← a.neg.ln? bits))
    return if n % 2 = 0 then p else p.neg

end Interval

namespace Expr

mutual

/-- Enclosure of a constant real expression, if one is found with that many bits. -/
def enclose? (bits : Nat) : Expr → Option Interval
  | number q => some (.shorten bits (.point q))
  | sum ts => encloseSum? bits ts
  | product fs => encloseProduct? bits fs
  | power b (number q) => do
    let base ← enclose? bits b
    if q.den = 1 then
      let base ← if q.num < 0 then base.inverse? bits else some base
      base.natPow? bits q.num.natAbs
    else Interval.exp? bits (.mul bits (.point q) (← base.ln? bits))
  | power b e => do
    let base ← enclose? bits b
    let exponent ← enclose? bits e
    Interval.exp? bits (.mul bits exponent (← base.ln? bits))
  | _ => none

/-- Enclosure of a sum of constant real expressions. -/
def encloseSum? (bits : Nat) : List Expr → Option Interval
  | [] => some (.point 0)
  | e :: es => do return .add bits (← enclose? bits e) (← encloseSum? bits es)

/-- Enclosure of a product of constant real expressions. -/
def encloseProduct? (bits : Nat) : List Expr → Option Interval
  | [] => some (.point 1)
  | e :: es => do return .mul bits (← enclose? bits e) (← encloseProduct? bits es)

end

/-- A rational near a constant real expression. -/
def approximation? (e : Expr) : Option Rat :=
  (e.enclose? 128).map fun i => (i.low + i.high) / 2

/-- The sign of a constant real expression, as far as an enclosure shows it. -/
def sign? (e : Expr) : Option Int :=
  (e.enclose? 256).bind fun i =>
    if 0 < i.low then some 1 else if i.high < 0 then some (-1) else none

end Expr

end EquationStudio
