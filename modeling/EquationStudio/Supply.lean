import EquationStudio.Datum.Basic

/-!
# The supply of fresh identifiers

Identifiers are drawn from a supply that never gives one twice: the drawn number in eight decimal
digits, then zeros. Those who draw keep as many characters as they need.
-/

namespace EquationStudio

/-- How many identifiers have been drawn. -/
structure Supply where
  drawn : Nat := 0
  deriving DecidableEq

/-- The identifier drawn `n`-th, of 32 characters. -/
def freshIdentifier (n : Nat) : String :=
  let digits := toString n
  String.ofList (List.replicate (8 - digits.length) '0') ++ digits ++
    String.ofList (List.replicate 24 '0')

/-- Draws an identifier of the given length. -/
def Supply.draw (s : Supply) (length : Nat) : String × Supply :=
  (String.ofList ((freshIdentifier (s.drawn + 1)).toList.take length), ⟨s.drawn + 1⟩)

end EquationStudio
