import EquationStudio.Datum.Key
import EquationStudio.Numeric.Reading

/-!
# Numbers of the editor

A number is an integer of any size or a finite double. `Number.scaled` is its value in steps of
`2⁻¹⁰⁷⁴`, by which numbers of both kinds are compared exactly. A literal is the text a number is
shown with, whole numbers below `10 ^ 16` without a point, and `Number.literalValue` is the rational
that the literal spells. `Number.ofDatum` is what the editor accepts where it asks for a number.
-/

namespace EquationStudio

/-- An integer or a finite double. -/
inductive Number where
  | whole (n : Int)
  | real (x : FiniteDouble)
  deriving DecidableEq

namespace Number

/-- The value in steps of `2⁻¹⁰⁷⁴`. -/
def scaled : Number → Int
  | whole n => n * Nat.pow 2 stepBits
  | real x => x.steps

/-- The exact value. -/
def toRat : Number → Rat
  | whole n => n
  | real x => x.toRat

/-- The integer that a number without fractional part is. -/
def toInt? : Number → Option Int
  | whole n => some n
  | real x => x.toInt?

/-- The double nearest to a number, unless it is too large. -/
def toDouble? : Number → Option FiniteDouble
  | whole n => FiniteDouble.ofInt? n
  | real x => some x

/-- The number as a datum. -/
def toDatum : Number → Datum
  | whole n => .int n
  | real x => .float (.finite x)

/-- Whole magnitudes from here on are written with an exponent when they are doubles. -/
abbrev plainLimit : Nat := Nat.pow 10 16

/-- The whole number below the limit that a double is. -/
def plainInt? (x : FiniteDouble) : Option Int :=
  x.toInt?.bind fun n => if n.natAbs < plainLimit then some n else none

/-- The literal of a double. -/
def realLiteral (x : FiniteDouble) : String :=
  match plainInt? x with
  | some n => toString n
  | none => x.write

/-- The literal of a number. -/
def literal : Number → String
  | whole n => toString n
  | real x => realLiteral x

/-- The rational that a number's literal spells. -/
def literalValue : Number → Rat
  | whole n => n
  | real x =>
    match plainInt? x with
    | some n => n
    | none =>
      let magnitude := (Numeral.shortest x.code).toRat
      if x.negative then -magnitude else magnitude

/-- The number of a finite double: an integer if it is whole and below the limit. -/
def ofFinite (x : FiniteDouble) : Number :=
  match plainInt? x with
  | some n => .whole n
  | none => .real x

/-- The number of a double, unless it is undefined or infinite. -/
def ofDouble : Double → Except Fault Number
  | .finite x => .ok (ofFinite x)
  | _ => .error (.schema .notNumber)

/-- The number that a datum is taken for where the editor asks for one. Integers pass through a
double, so large ones are rounded; texts are read; truth values are refused. -/
def ofDatum : Datum → Except Fault Number
  | .int n => ofDouble (.ofInt n)
  | .float x => ofDouble x
  | .text s =>
    match readDouble (trimBlank s) with
    | some x => ofDouble x
    | none => .error (.schema .notNumber)
  | _ => .error (.schema .notNumber)

/-- The number that a datum is, without conversion: an integer or a finite double, no truth
value. -/
def ofNumeric? : Datum → Option Number
  | .int n => some (.whole n)
  | .float (.finite x) => some (.real x)
  | _ => none

end Number

/-- The literal of a datum that is used as a number. -/
def Datum.literal : Datum → Except Fault String
  | .bool b => .ok (if b then "True" else "False")
  | .int n => integerText n
  | .float (.finite x) => .ok (Number.realLiteral x)
  | .float x => .ok x.write
  | d => .error (.datum (.noMethod d.kindName "is_integer"))

/-- The double that a datum is converted to where a coordinate is needed. -/
def Datum.toDouble : Datum → Except Fault Double
  | .bool b => .ok (.finite (if b then (FiniteDouble.ofInt? 1).getD .zero else .zero))
  | .int n =>
    match Double.ofInt n with
    | .finite x => .ok (.finite x)
    | _ => .error (.datum .tooLargeForDouble)
  | .float x => .ok x
  | .text s =>
    match readDouble s with
    | some x => .ok x
    | none => .error (.datum (.notNumeral (quoted s)))
  | d => .error (.datum (.notNumeric d.kindName))

end EquationStudio
