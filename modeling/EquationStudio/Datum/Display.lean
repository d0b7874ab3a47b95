import EquationStudio.Datum.Basic
import EquationStudio.Fault
import EquationStudio.Numeric.Numeral
import EquationStudio.Text.Quoted

/-!
# Data in words

A datum is displayed in a form that tells its kind: texts between quotes, lists in brackets, fields
in braces, and null, the truth values and the numbers by their words. Where a message quotes a text
that is no example of data, `Datum.plain` leaves the quotes away. Integers of more than 4300 digits
are not written.
-/

namespace EquationStudio

/-- How many digits an integer may have to be written. -/
abbrev writtenDigits : Nat := 4300

/-- An integer in decimal digits. -/
def integerText (n : Int) : Except Fault String :=
  if n.natAbs < Nat.pow 10 writtenDigits then .ok (toString n) else .error (.datum .tooManyDigits)

namespace Datum

mutual

/-- The form that tells a datum's kind. -/
def display : Datum → Except Fault String
  | null => .ok "None"
  | bool b => .ok (if b then "True" else "False")
  | int n => integerText n
  | float x => .ok x.write
  | text s => .ok (quoted s)
  | list items => do
    let shown ← displayItems items
    return "[" ++ String.intercalate ", " shown ++ "]"
  | record fields => do
    let shown ← displayFields fields
    return "\x7b" ++ String.intercalate ", " shown ++ "\x7d"

/-- The forms of a list's members. -/
def displayItems : List Datum → Except Fault (List String)
  | [] => .ok []
  | x :: xs => do
    let shown ← display x
    return shown :: (← displayItems xs)

/-- The forms of a record's fields. -/
def displayFields : List (String × Datum) → Except Fault (List String)
  | [] => .ok []
  | (key, x) :: fs => do
    let shown ← display x
    return (quoted key ++ ": " ++ shown) :: (← displayFields fs)

end

/-- The form used inside a sentence: a text as it is, all else as displayed. -/
def plain : Datum → Except Fault String
  | text s => .ok s
  | d => d.display

end Datum

end EquationStudio
