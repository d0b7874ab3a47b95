import EquationStudio.Datum.Display

/-!
# Keys

A table finds its entries by keys. Data that are equal make the same key, whatever kind of number
they are; lists and records cannot be keys.
-/

namespace EquationStudio

deriving instance Hashable for FiniteDouble
deriving instance Hashable for Double

/-- The identity under which a table keeps an entry. A number that is whole is `whole`, whatever
kind of datum it was. -/
inductive Key where
  | null
  | text (s : String)
  | whole (n : Int)
  | real (x : Double)
  deriving DecidableEq, Hashable

/-- The key of a double. -/
def Key.ofDouble (x : Double) : Key :=
  match x with
  | .finite y => (y.toInt?.map .whole).getD (.real x)
  | _ => .real x

/-- The key that a datum makes. -/
def Datum.key : Datum → Except Fault Key
  | .null => .ok .null
  | .bool b => .ok (.whole (if b then 1 else 0))
  | .int n => .ok (.whole n)
  | .float x => .ok (.ofDouble x)
  | .text s => .ok (.text s)
  | d => .error (.datum (.notKey d.kindName))

/-- A datum that makes a key, with the key. -/
structure Identity where
  datum : Datum
  key : Key
  made : datum.key = .ok key

namespace Identity

/-- The identity of a datum that can be a key. -/
def ofDatum (d : Datum) : Except Fault Identity :=
  match h : d.key with
  | .ok key => .ok ⟨d, key, h⟩
  | .error fault => .error fault

/-- The identity of a text. -/
def ofText (s : String) : Identity := ⟨.text s, .text s, rfl⟩

end Identity

end EquationStudio
