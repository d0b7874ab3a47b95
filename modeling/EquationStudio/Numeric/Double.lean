/-!
# Floating-point numbers of 64 bits

A finite double is a sign and a *code*: the exponent and fraction fields read as one number, so
that codes order the magnitudes and the next magnitude has the next code. Every finite double is a
whole number of steps of `2⁻¹⁰⁷⁴` (`FiniteDouble.steps`), which turns comparisons with integers
and with one another into comparisons of integers. Rounding (`codeOfRatio`) takes a quotient of
naturals to the nearest magnitude, a half going to the even code; a magnitude that rounds past the
largest code is infinite.
-/

namespace EquationStudio

/-- The quotient of `num` by `den` rounded to the nearest natural, a half to the even one. -/
def roundQuotient (num den : Nat) : Nat :=
  let q := num / den
  let r := num % den
  if 2 * r < den then q
  else if den < 2 * r then q + 1
  else if q % 2 = 0 then q
  else q + 1

/-- How many codes finite magnitudes have. -/
abbrev finiteCodes : Nat := 2047 * Nat.pow 2 52

/-- The exponent of the smallest step, with its sign changed. -/
abbrev stepBits : Nat := 1074

/-- How many smallest steps the magnitude with this code measures. -/
def codeSteps (code : Nat) : Nat :=
  if code < Nat.pow 2 52 then code
  else (Nat.pow 2 52 + code % Nat.pow 2 52) * Nat.pow 2 (code / Nat.pow 2 52 - 1)

/-- The code of the magnitude nearest to `num / den`. It is `finiteCodes` or more when the
magnitude is too large for a finite double. -/
def codeOfRatio (num den : Nat) : Nat :=
  let scaled := num * Nat.pow 2 stepBits
  let shift := (scaled / den).log2 - 52
  shift * Nat.pow 2 52 + roundQuotient scaled (den * Nat.pow 2 shift)

/-! ## Significant digits -/

/-- The magnitude of a rational brought to a number of significant binary digits: what is left of
the quotient after these is decided by `round`. -/
def significant (round : Nat → Nat → Nat) (bits : Nat) (q : Rat) : Rat :=
  let raised := bits + q.den.log2
  let scaled := q.num.natAbs * Nat.pow 2 raised
  let shift := (scaled / q.den).log2 + 1 - bits
  mkRat (round scaled (q.den * Nat.pow 2 shift) * Nat.pow 2 shift : Nat) (Nat.pow 2 raised)

/-- The nearest rational with a number of significant binary digits, a half going to the even
one. -/
def roundedTo (bits : Nat) (q : Rat) : Rat :=
  if q < 0 then -significant roundQuotient bits q else significant roundQuotient bits q

/-- A rational cut off after a number of significant binary digits. -/
def cutTo (bits : Nat) (q : Rat) : Rat :=
  if q < 0 then -significant (· / ·) bits q else significant (· / ·) bits q

/-! ## Doubles -/

/-- A finite double. The sign of zero is kept. -/
structure FiniteDouble where
  negative : Bool
  code : Fin finiteCodes
  deriving DecidableEq

/-- A double: a finite number, an infinity or the undefined value. -/
inductive Double where
  | nan
  | infinite (negative : Bool)
  | finite (x : FiniteDouble)
  deriving DecidableEq

namespace FiniteDouble

/-- Positive zero. -/
def zero : FiniteDouble := ⟨false, 0⟩

/-- The value in steps of `2⁻¹⁰⁷⁴`. -/
def steps (x : FiniteDouble) : Int :=
  if x.negative then -(codeSteps x.code : Int) else codeSteps x.code

/-- The exact value. -/
def toRat (x : FiniteDouble) : Rat := mkRat x.steps (Nat.pow 2 stepBits)

/-- A double with no fractional part. -/
def isIntegral (x : FiniteDouble) : Bool := x.steps % Nat.pow 2 stepBits == 0

/-- The integer that remains when the fractional part is dropped. -/
def truncate (x : FiniteDouble) : Int := x.steps.tdiv (Nat.pow 2 stepBits : Nat)

/-- The whole number a double is, if it has no fractional part. -/
def toInt? (x : FiniteDouble) : Option Int :=
  if x.isIntegral then some x.truncate else none

end FiniteDouble

namespace Double

/-- A double of the given sign and code; codes past the last finite one give an infinity. -/
def ofCode (negative : Bool) (code : Nat) : Double :=
  if h : code < finiteCodes then .finite ⟨negative, ⟨code, h⟩⟩ else .infinite negative

/-- The double nearest to a rational; one too large gives an infinity. -/
def ofRat (q : Rat) : Double := ofCode (q.num < 0) (codeOfRatio q.num.natAbs q.den)

/-- The double nearest to an integer; one too large gives an infinity. -/
def ofInt (n : Int) : Double := ofCode (n < 0) (codeOfRatio n.natAbs 1)

/-- The double that a rational is rounded to by way of 53 significant digits. The second rounding
changes nothing but magnitudes below `2⁻¹⁰²²`, where doubles have fewer digits. -/
def ofRatTwice (q : Rat) : Double := ofRat (roundedTo 53 q)

/-- The magnitude of a double. -/
def magnitude : Double → Double
  | .finite x => .finite ⟨false, x.code⟩
  | .infinite _ => .infinite false
  | .nan => .nan

/-- Whether a double is beyond a natural. The undefined value is beyond nothing. -/
def exceeds (n : Nat) : Double → Bool
  | .finite x => (n * Nat.pow 2 stepBits : Nat) < x.steps
  | .infinite negative => !negative
  | .nan => false

/-- Numerical equality: zeros of both signs are equal, the undefined value equals nothing. -/
def equal : Double → Double → Bool
  | .finite x, .finite y => x.steps == y.steps
  | .infinite s, .infinite t => s == t
  | _, _ => false

end Double

/-- The finite double that a double is, if it is one. -/
def Double.finite? : Double → Option FiniteDouble
  | .finite x => some x
  | _ => none

/-- The finite double nearest to an integer, or nothing when the integer is too large. -/
def FiniteDouble.ofInt? (n : Int) : Option FiniteDouble := (Double.ofInt n).finite?

/-- The double nearest to the sum with an integer, or the double itself if the sum is too large. -/
def FiniteDouble.plus (x : FiniteDouble) (n : Int) : FiniteDouble :=
  (Double.ofRat (x.toRat + n)).finite?.getD x

/-- The remainder of `x` by the nearest multiple of `y` (a half goes to the even multiple), in
steps of `2⁻¹⁰⁷⁴`. -/
def FiniteDouble.remainderSteps (x y : FiniteDouble) : Int :=
  let multiple := roundQuotient x.steps.natAbs y.steps.natAbs
  let magnitude : Int := (x.steps.natAbs : Int) - multiple * y.steps.natAbs
  if x.steps < 0 then -magnitude else magnitude

end EquationStudio
