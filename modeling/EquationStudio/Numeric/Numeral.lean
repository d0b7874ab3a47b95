import EquationStudio.Numeric.Double

/-!
# Decimal numerals of doubles

A numeral is `digits · 10 ^ exponent`. `Numeral.shortest` gives the numeral with the fewest digits
that reads back as a given magnitude, of those the one nearest to it; what it returns always reads
back, because each candidate is read before it is taken and the exact expansion stands at the end.
`Style` holds the decisions of a printed form: which exponents are written positionally and whether
whole numbers keep a point.
-/

namespace EquationStudio

/-- The number `digits · 10 ^ exponent`. -/
structure Numeral where
  digits : Nat
  exponent : Int
  deriving DecidableEq

namespace Numeral

/-- The numerator of the value. -/
def numerator (n : Numeral) : Nat := n.digits * Nat.pow 10 n.exponent.toNat

/-- The denominator of the value. -/
def denominator (n : Numeral) : Nat := Nat.pow 10 (-n.exponent).toNat

/-- The exact value. -/
def toRat (n : Numeral) : Rat := mkRat n.numerator n.denominator

/-- The code of the double nearest to the value. -/
def code (n : Numeral) : Nat := codeOfRatio n.numerator n.denominator

/-- The same number without trailing zero digits. -/
def trim (n : Numeral) : Nat → Numeral
  | 0 => n
  | fuel + 1 =>
    if n.digits ≠ 0 ∧ n.digits % 10 = 0 then trim ⟨n.digits / 10, n.exponent + 1⟩ fuel else n

/-- The two neighbours of `num / den` among the multiples of `10 ^ exponent`, the nearer first. -/
def neighbours (num den : Nat) (exponent : Int) : Numeral × Numeral :=
  let num := num * Nat.pow 10 (-exponent).toNat
  let den := den * Nat.pow 10 exponent.toNat
  let below := num / den
  if 2 * (num % den) ≤ den then (⟨below, exponent⟩, ⟨below + 1, exponent⟩)
  else (⟨below + 1, exponent⟩, ⟨below, exponent⟩)

/-- The least power of ten above `num / den`, from a guess that is too low by one at most. -/
def decimalSize (num den : Nat) : Int :=
  let guess : Int := ((num.log2 : Int) - den.log2) * 30103 / 100000
  let reaches (p : Int) : Bool := den * Nat.pow 10 p.toNat ≤ num * Nat.pow 10 (-p).toNat
  if reaches (guess + 1) then guess + 2 else if reaches guess then guess + 1 else guess

/-- Tries numerals of `count`, `count + 1`, … digits for the magnitude with this code. -/
def search (code num den : Nat) (size : Int) : Nat → Nat → Option Numeral
  | 0, _ => none
  | fuel + 1, count =>
    let pair := neighbours num den (size - count)
    if pair.1.code = code then some pair.1
    else if pair.2.code = code then some pair.2
    else search code num den size fuel (count + 1)

/-- The exact expansion of the magnitude with this code. -/
def exact (code : Nat) : Numeral := ⟨codeSteps code * Nat.pow 5 stepBits, -stepBits⟩

/-- The numeral with the fewest digits that reads back as the magnitude with this code, and of
those the nearest to it. -/
def shortest (code : Nat) : Numeral :=
  if code = 0 then ⟨0, 0⟩
  else
    let num := codeSteps code
    let den := Nat.pow 2 stepBits
    match search code num den (decimalSize num den) 17 1 with
    | some n => n.trim 18
    | none => exact code

end Numeral

/-! ## Written forms -/

/-- How a numeral is written. -/
structure Style where
  /-- The decimal exponents written positionally, from the first one on … -/
  positionalFrom : Int
  /-- … and up to this one, which is already written with an exponent. -/
  positionalTo : Int
  /-- The least number of digits of a written exponent. -/
  exponentDigits : Nat

/-- The form that numbers read back from: positional from a ten-thousandth up to `10 ^ 16`, always
with a point, and exponents of two digits at least. -/
def Style.readable : Style := ⟨-4, 16, 2⟩

/-- A natural in decimal digits, with zeros in front up to the given width. -/
def paddedDigits (width n : Nat) : String :=
  let digits := toString n
  String.ofList (List.replicate (width - digits.length) '0') ++ digits

/-- A positive numeral in the given style. -/
def Numeral.write (style : Style) (n : Numeral) : String :=
  let digits := (toString n.digits).toList
  let point : Int := n.exponent + digits.length
  let zeros (k : Int) : List Char := List.replicate k.toNat '0'
  if style.positionalFrom ≤ point - 1 ∧ point - 1 < style.positionalTo then
    if point ≤ 0 then "0." ++ String.ofList (zeros (-point) ++ digits)
    else if (digits.length : Int) ≤ point then
      String.ofList (digits ++ zeros (point - digits.length)) ++ ".0"
    else
      String.ofList (digits.take point.toNat) ++ "." ++ String.ofList (digits.drop point.toNat)
  else
    let fraction := digits.drop 1
    let mantissa := digits.take 1 ++ (if fraction.isEmpty then [] else '.' :: fraction)
    let sign := if point - 1 < 0 then "-" else "+"
    String.ofList mantissa ++ "e" ++ sign ++
      paddedDigits style.exponentDigits (point - 1).natAbs

/-- A finite double in its shortest form that reads back. -/
def FiniteDouble.write (x : FiniteDouble) : String :=
  (if x.negative then "-" else "") ++ (Numeral.shortest x.code).write .readable

/-- A double in its shortest form that reads back. -/
def Double.write : Double → String
  | .nan => "nan"
  | .infinite negative => if negative then "-inf" else "inf"
  | .finite x => x.write

end EquationStudio
