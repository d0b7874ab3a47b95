import EquationStudio.Datum.Key
import EquationStudio.Datum.Access
import EquationStudio.Document.Writing

/-!
# Data read as mappings

Where a mapping is needed, a list of pairs will do: each pair is a key and a value, and a later pair
replaces an earlier one with the same key. Every key is put into words, since documents know no
other keys.
-/

namespace EquationStudio.Datum

/-- A key in the words that a document has for it. -/
def keyText : Datum → String
  | null => "null"
  | bool b => if b then "true" else "false"
  | int n => toString n
  | float x => documentDouble x
  | text s => s
  | list _ | record _ => ""

/-- The pair that a member of a list of pairs is. -/
def toField (d : Datum) : Except Fault (String × Datum) :=
  match d.members with
  | .ok [key, value] => do
    let _ ← key.key
    return (key.keyText, value)
  | .ok parts => .error (.datum (.notPair parts.length))
  | .error _ => .error (.datum (.notMapping d.kindName))

/-- The fields of a mapping or of a list of pairs. -/
def toFields (d : Datum) : Except Fault Fields :=
  match d with
  | record fields => .ok fields
  | d => do return Fields.ofPairs (← (← d.members).mapM toField)

end EquationStudio.Datum
