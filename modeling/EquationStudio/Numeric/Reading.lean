import EquationStudio.Numeric.Numeral
import EquationStudio.Text.Blank
import EquationStudio.Text.Digits

/-!
# Reading numbers from text

A number is written with an optional sign, decimal digits of any script with single underscores
between them, an optional fraction and an optional exponent, or as an infinity or the undefined
value by name; blanks may stand around it. The value read is the double nearest to the number
written, an infinity if that is too large.
-/

namespace EquationStudio

/-- White space that may stand around a number. The information separators are blank in a text,
but they are no part of a number. -/
def isNumberBlank (c : Char) : Bool := isBlank c && !(0x1c ≤ c.toNat && c.toNat ≤ 0x1f)

/-- The text with the digits of all scripts replaced by Latin ones. -/
def latinDigits (cs : List Char) : List Char :=
  cs.map fun c => ((digitValue? c).map Nat.digitChar).getD c

/-- Drops underscores that stand between two digits; any other underscore refuses the text. -/
def dropUnderscores (previous : Char) : List Char → Option (List Char)
  | [] => if previous = '_' then none else some []
  | c :: rest =>
    if c = '_' then
      if previous.isDigit then dropUnderscores c rest else none
    else if previous = '_' ∧ ¬ c.isDigit then none
    else (dropUnderscores c rest).map (c :: ·)

/-- The natural that a list of decimal digits stands for. -/
def digitsToNat (cs : List Char) : Nat := cs.foldl (fun n c => 10 * n + (c.toNat - '0'.toNat)) 0

/-- Separates a sign from what follows it; the answer holds whether it is negative. -/
def splitSign : List Char → Bool × List Char
  | '-' :: rest => (true, rest)
  | '+' :: rest => (false, rest)
  | cs => (false, cs)

/-- Reads the exponent that closes a numeral. -/
def readExponent : List Char → Option Int
  | [] => some 0
  | c :: rest =>
    if c = 'e' ∨ c = 'E' then
      let (negative, digits) := splitSign rest
      if digits.isEmpty || !digits.all Char.isDigit then none
      else some (if negative then -(digitsToNat digits : Int) else digitsToNat digits)
    else none

/-- Reads an unsigned numeral. -/
def readNumeral (cs : List Char) : Option Numeral :=
  let whole := cs.takeWhile Char.isDigit
  let (fraction, rest) := match cs.dropWhile Char.isDigit with
    | '.' :: rest => (rest.takeWhile Char.isDigit, rest.dropWhile Char.isDigit)
    | rest => ([], rest)
  if whole.isEmpty && fraction.isEmpty then none
  else (readExponent rest).map fun exponent =>
    ⟨digitsToNat (whole ++ fraction), exponent - fraction.length⟩

/-- The decimal exponents beyond which every double is zero or infinite. -/
abbrev decimalReach : Int := 400

/-- The double nearest to a numeral. Numerals far outside the range of doubles are not expanded. -/
def Numeral.toDouble (negative : Bool) (n : Numeral) : Double :=
  let size : Int := n.exponent + (toString n.digits).length
  if n.digits = 0 ∨ size < -decimalReach then .finite { FiniteDouble.zero with negative }
  else if decimalReach < size then .infinite negative
  else .ofCode negative n.code

/-- Reads a number from the whole of a text. -/
def readDouble (s : String) : Option Double := do
  let cs := latinDigits (trimEnds isNumberBlank s.toList)
  let (negative, body) := splitSign (← dropUnderscores ' ' cs)
  let word := lowerLatin (String.ofList body)
  if word = "inf" ∨ word = "infinity" then return .infinite negative
  if word = "nan" then return .nan
  return (← readNumeral body).toDouble negative

end EquationStudio
