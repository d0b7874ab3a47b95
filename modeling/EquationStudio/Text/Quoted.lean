import EquationStudio.Text.LoneUnit
import EquationStudio.Text.Printable

/-!
# Quoted text

A text is shown between single quotes, or between double quotes if it has a single quote and no
double one. The quote in use, the backslash and the characters that do not print are escaped, with
the shortest of two, four and eight hexadecimal digits that holds the code point.
-/

namespace EquationStudio

/-- The last `width` hexadecimal digits of a number, in small letters. -/
def hexDigits (n : Nat) : Nat → List Char
  | 0 => []
  | width + 1 => hexDigits (n / 16) width ++ [Nat.digitChar (n % 16)]

/-- A character between the given quotes. -/
def quoteChar (quote : Char) (c : Char) : List Char :=
  if c = quote ∨ c = '\\' then ['\\', c]
  else if c = '\n' then ['\\', 'n']
  else if c = '\r' then ['\\', 'r']
  else if c = '\t' then ['\\', 't']
  else if isPrintable c then [c]
  else if isLoneUnit c then '\\' :: 'u' :: hexDigits (0xd800 + (c.toNat - firstLoneUnit)) 4
  else if c.toNat < 0x100 then '\\' :: 'x' :: hexDigits c.toNat 2
  else if c.toNat < 0x10000 then '\\' :: 'u' :: hexDigits c.toNat 4
  else '\\' :: 'U' :: hexDigits c.toNat 8

/-- A text between quotes. -/
def quoted (s : String) : String :=
  let cs := s.toList
  let quote := if cs.contains '\'' && !cs.contains '"' then '"' else '\''
  String.ofList (quote :: cs.flatMap (quoteChar quote) ++ [quote])

end EquationStudio
