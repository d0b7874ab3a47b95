import EquationStudio.Algebra.Product
import EquationStudio.Datum.Display

/-!
# Expressions in text

Factors with negative exponents stand behind a stroke, a half in the exponent is written as a square
root, and an operand is put in parentheses where it would otherwise bind too loosely.
-/

namespace EquationStudio

/-- An integer in text. Nothing but too many digits keeps it from being written. -/
def writtenInteger (n : Int) : Except DatumFault String :=
  (integerText n).mapError fun _ => .tooManyDigits

/-- A rational in text, unless it has too many digits. -/
def writtenRational (q : Rat) : Except DatumFault String :=
  if q.den = 1 then writtenInteger q.num
  else return (← writtenInteger q.num) ++ "/" ++ (← writtenInteger q.den)

namespace Expr

/-- How tightly sums, products, powers and atoms bind. -/
inductive Binding where
  | sum
  | product
  | power
  | atom
  deriving DecidableEq

/-- Bindings as numbers, tighter ones greater. -/
def Binding.rank : Binding → Nat
  | .sum => 0
  | .product => 1
  | .power => 2
  | .atom => 3

/-- How tightly the text of an expression binds. -/
def binding : Expr → Binding
  | number q => if q < 0 then .sum else if q.den = 1 then .atom else .product
  | product (number q :: _) => if q < 0 then .sum else .product
  | product _ => .product
  | sum _ => .sum
  | power _ _ => .power
  | _ => .atom

/-- The items of a product above and below the stroke. -/
structure Stroke where
  above : List Expr := []
  below : List Expr := []

/-- Puts a factor above or below the stroke. -/
def Stroke.put (s : Stroke) (e : Expr) : Stroke :=
  match e with
  | number q =>
    { above := if q.num = 1 then s.above else s.above ++ [number q.num]
      below := if q.den = 1 then s.below else s.below ++ [number q.den] }
  | power b x =>
    let (c, tail) := x.splitCoefficient
    if c < 0 then
      if c = -1 ∧ tail == one then { s with below := s.below ++ [b] }
      else { s with below := s.below ++ [power b (scaled (-c) tail)] }
    else { s with above := s.above ++ [e] }
  | e => { s with above := s.above ++ [e] }

/-- Whether a text begins with a minus sign, and the text without it. -/
def splitMinus (s : String) : Bool × String :=
  match s.toList with
  | '-' :: rest => (true, String.ofList rest)
  | _ => (false, s)

mutual

/-- The text of an expression; `fuel` bounds its levels. -/
def textWithin : Nat → Expr → Except DatumFault String
  | 0, _ => .ok ""
  | fuel + 1, e =>
    match e with
    | number q => writtenRational q
    | undefined => .ok "nan"
    | infinite => .ok "zoo"
    | imaginary => .ok "I"
    | symbol name => .ok name
    | power b x =>
      if x == number (1 / 2) then return "sqrt(" ++ (← textWithin fuel b) ++ ")"
      else if x == number (-1 / 2) then return "1/sqrt(" ++ (← textWithin fuel b) ++ ")"
      else if x == minusOne then return "1/" ++ (← operandWithin fuel .power b)
      else return (← operandWithin fuel .power b) ++ "**" ++ (← operandWithin fuel .power x)
    | product fs => do
      let (q, rest) := (product fs).splitCoefficient
      let level := (product fs).binding
      let sign := if q < 0 then "-" else ""
      let magnitude := if q < 0 then -q else q
      let items := (if magnitude = 1 then [] else [number magnitude]) ++ orderedFactors rest.factors
      let stroke := items.foldl Stroke.put {}
      let above := if stroke.above.isEmpty then [one] else stroke.above
      let top := sign ++ String.intercalate "*" (← operandsWithin fuel level above)
      match ← operandsWithin fuel level stroke.below with
      | [] => return top
      | [b] => return top ++ "/" ++ b
      | bs => return top ++ "/(" ++ String.intercalate "*" bs ++ ")"
    | sum ts => do
      match ← termsWithin fuel (orderedTerms ts) with
      | [] => return ""
      | (negative, t) :: rest =>
        let first := if negative then "-" ++ t else t
        return first ++ String.join (rest.map fun r => (if r.1 then " - " else " + ") ++ r.2)

/-- The text of an operand, in parentheses unless it binds more tightly than the level. -/
def operandWithin : Nat → Binding → Expr → Except DatumFault String
  | 0, _, _ => .ok ""
  | fuel + 1, level, e => do
    let s ← textWithin fuel e
    return if e.binding.rank ≤ level.rank then "(" ++ s ++ ")" else s

/-- The texts of operands. -/
def operandsWithin : Nat → Binding → List Expr → Except DatumFault (List String)
  | 0, _, _ => .ok []
  | _ + 1, _, [] => .ok []
  | fuel + 1, level, e :: es =>
    return (← operandWithin fuel level e) :: (← operandsWithin fuel level es)

/-- The texts of terms, without their signs. -/
def termsWithin : Nat → List Expr → Except DatumFault (List (Bool × String))
  | 0, _ => .ok []
  | _ + 1, [] => .ok []
  | fuel + 1, t :: ts => do
    let s ← textWithin fuel t
    let shown := if t.isSum then (false, "(" ++ s ++ ")") else splitMinus s
    return shown :: (← termsWithin fuel ts)

end

mutual

/-- How many expressions an expression is made of. -/
def size : Expr → Nat
  | power b e => b.size + e.size + 1
  | product fs => sizeList fs + 1
  | sum ts => sizeList ts + 1
  | _ => 1

/-- The size of all expressions in a list. -/
def sizeList : List Expr → Nat
  | [] => 0
  | e :: es => e.size + sizeList es

end

/-- The text of an expression. -/
def text (e : Expr) : Except DatumFault String := textWithin (8 * e.size + 16) e

end Expr

end EquationStudio
