import EquationStudio.Datum.Basic
import EquationStudio.Fault
import EquationStudio.Numeric.Double

/-!
# What is asked of a computer algebra

The expression behind a sink is worked out by a library for computer algebra. A `SymbolicAlgebra` is
all that the editor asks of one: how forms are built, what is looked at before a power is taken, and
what is asked of the form that comes out. How a library answers is no part of the editor, so
whatever reads an expression as algebra takes the library as a parameter.
-/

namespace EquationStudio

/-- A library for computer algebra. Its operators always give a form; where there is no number for
it, they give one that says so. -/
structure SymbolicAlgebra where
  /-- The forms in which the library keeps expressions. -/
  Form : Type
  rational : Rat → Form
  symbol : String → Form
  add : Form → Form → Form
  sub : Form → Form → Form
  mul : Form → Form → Form
  div : Form → Form → Form
  pow : Form → Form → Form
  /-- Whether a form is a number that stands alone. -/
  isNumber : Form → Bool
  /-- Whether a form is the number zero. -/
  isZero : Form → Bool
  /-- The double that the exponent times the decimal logarithm of the magnitude of the base is
  converted to, unless the conversion overflows. -/
  powerDigits? : (base exponent : Form) → Option Double
  /-- The names of the symbols that a form depends on, each once. -/
  names : Form → List String
  /-- Whether an infinity without direction or an undefined value occurs in a form. -/
  isSingular : Form → Bool
  /-- Whether a form is known to be finite. -/
  isFinite : Form → Bool
  /-- Whether a form is known to be real. -/
  isReal : Form → Bool
  /-- The double that a form is converted to, unless the conversion overflows. -/
  toDouble? : Form → Option Double
  text : Form → Except DatumFault String
  simplify : Form → Except DatumFault Form
  /-- Converts a value that is neither a number nor a text. -/
  convert : Datum → Except DatumFault Unit

end EquationStudio
