import EquationStudio.Numeric.Numeral

/-!
# Percentages

A share is shown in whole hundredths. It is multiplied by a hundred as a double first, and the exact
value of the product is rounded, a half to the even hundredth.
-/

namespace EquationStudio

/-- A finite double rounded to a whole number, a half to the even one. -/
def FiniteDouble.roundedText (x : FiniteDouble) : String :=
  let digits := toString (roundQuotient x.steps.natAbs (Nat.pow 2 stepBits))
  if x.negative then "-" ++ digits else digits

/-- A share in whole hundredths. -/
def Double.percent (x : Double) : String :=
  let scaled := match x with
    | .finite y => Double.ofRat (y.toRat * 100)
    | y => y
  match scaled with
  | .finite y => y.roundedText ++ "%"
  | y => y.write ++ "%"

end EquationStudio
