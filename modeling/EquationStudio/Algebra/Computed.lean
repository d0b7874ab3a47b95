import EquationStudio.Algebra.Bound
import EquationStudio.Algebra.Simplify
import EquationStudio.Synthesis.Symbolic

/-!
# Expressions as a computer algebra

The algebra of expressions in normal form is a computer algebra (`Expr.algebra`), the one that runs.
Rational numbers are converted to doubles by way of 53 significant digits. Of other constants 57 are
found first: those of a power are cut off there, those of a sum or a product rounded.
-/

namespace EquationStudio.Expr

/-- A part that makes an expression other than real: the imaginary unit, or a root of a negative
number. -/
def isUnreal : Expr → Bool
  | imaginary => true
  | power b (number r) => r.den ≠ 1 && b.isConstant && b.sign? == some (-1)
  | power b _ => b.isConstant && b.sign? == some (-1)
  | _ => false

/-- What is kept of a rational near an expression. -/
def keptDigits (e : Expr) (q : Rat) : Rat :=
  roundedTo 53 (if e.isPower then cutTo 57 q else roundedTo 57 q)

/-- The digits of a constant real expression: enclosures with more and more bits, until the same is
kept of both ends. -/
def digitsWithin (e : Expr) : Nat → Nat → Rat
  | 0, _ => e.keptDigits (e.approximation?.getD 0)
  | fuel + 1, bits =>
    match e.enclose? bits with
    | some i =>
      let low := e.keptDigits i.low
      if low = e.keptDigits i.high then low else digitsWithin e fuel (2 * bits)
    | none => digitsWithin e fuel (2 * bits)

/-- The double of a constant real expression. One without any enclosure is taken for too large. -/
def toDouble : Expr → Double
  | number q => .ofRatTwice q
  | e => if (e.enclose? 512).isSome then .ofRat (e.digitsWithin 6 96) else .infinite false

/-- The digits of a power as a double. Of what is no rational number they are undefined. -/
def powerDigits : Expr → Expr → Double
  | number q, number r => .ofRat (digitsOfPower q r)
  | _, _ => .nan

/-- The algebra of expressions. -/
def algebra : SymbolicAlgebra where
  Form := Expr
  rational := number
  symbol := symbol
  add := add
  sub := sub
  mul := mul
  div := div
  pow := pow
  isNumber e := e.isNumber || e == undefined
  isZero e := e == zero
  powerDigits? b e := some (powerDigits b e)
  names := symbols
  isSingular := isSingular
  isFinite e := !e.isSingular
  isReal e := !e.anyPart isUnreal
  toDouble? e := some e.toDouble
  text := text
  simplify e := .ok (if e.isSingular then e else e.simplified)
  convert _ := .ok ()

end EquationStudio.Expr
