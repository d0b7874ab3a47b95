/-!
# Code units without a partner

A text may hold one half of a pair of code units, though no file can hold it. The 2048 last
characters, which are for private use, stand for such halves.
-/

namespace EquationStudio

/-- The code point of the character that stands for the first code unit of a pair. -/
abbrev firstLoneUnit : Nat := 0x10f800

/-- The character that stands for a code unit without a partner. -/
def loneUnit (unit : Nat) : Char := Char.ofNat (firstLoneUnit + (unit - 0xd800))

/-- A character that stands for a code unit without a partner. -/
def isLoneUnit (c : Char) : Bool := firstLoneUnit ≤ c.toNat

/-- A text that a file can hold. -/
def isEncodable (s : String) : Bool := !s.toList.any isLoneUnit

end EquationStudio
