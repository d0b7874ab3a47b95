import EquationStudio.Numeric.Double

/-!
# Data from outside

Records, requests and files reach the library as data: null, truth values, integers of any size,
doubles, texts, lists, and records whose fields keep their order. A record holds each key once; the
operations here keep it so.
-/

namespace EquationStudio

/-- A value whose form is not known in advance. -/
inductive Datum where
  | null
  | bool (b : Bool)
  | int (n : Int)
  | float (x : Double)
  | text (s : String)
  | list (items : List Datum)
  | record (fields : List (String × Datum))
  deriving Inhabited

/-- The fields of a record, in order. -/
abbrev Fields := List (String × Datum)

/-- The value of a field. -/
def Fields.get? (fields : Fields) (key : String) : Option Datum :=
  (fields.find? (·.1 == key)).map (·.2)

/-- The value of a field, null if it is not there. -/
def Fields.get (fields : Fields) (key : String) : Datum := (Fields.get? fields key).getD .null

/-- The fields with one set: in its place if it is there, else at the end. -/
def Fields.set (fields : Fields) (key : String) (value : Datum) : Fields :=
  if fields.any (·.1 == key) then
    fields.map fun f => if f.1 == key then (key, value) else f
  else fields ++ [(key, value)]

/-- The fields without one. -/
def Fields.erase (fields : Fields) (key : String) : Fields := fields.filter (·.1 != key)

/-- The fields of a list of pairs, where a later pair replaces the value of an earlier one. -/
def Fields.ofPairs (pairs : Fields) : Fields := pairs.foldl (fun fs f => Fields.set fs f.1 f.2) []

namespace Datum

/-- The name of a datum's kind. -/
def kindName : Datum → String
  | null => "NoneType"
  | bool _ => "bool"
  | int _ => "int"
  | float _ => "float"
  | text _ => "str"
  | list _ => "list"
  | record _ => "dict"

/-- What counts as true: everything but null, false, zeros and what is empty. -/
def isTruthy : Datum → Bool
  | null => false
  | bool b => b
  | int n => n != 0
  | float x => !x.equal (.finite .zero)
  | text s => s != ""
  | list items => !items.isEmpty
  | record fields => !fields.isEmpty

/-- A datum other than null. -/
def isGiven : Datum → Bool
  | null => false
  | _ => true

/-- The double a truth value, integer or float stands for, with the integers kept exact. -/
inductive Quantity where
  | whole (n : Int)
  | real (x : Double)

/-- The number that a datum stands for where numbers are compared. -/
def quantity? : Datum → Option Quantity
  | bool b => some (.whole (if b then 1 else 0))
  | int n => some (.whole n)
  | float x => some (.real x)
  | _ => none

/-- Numerical equality across integers and doubles, exact. -/
def Quantity.equal : Quantity → Quantity → Bool
  | .whole m, .whole n => m == n
  | .whole m, .real (.finite x) => m * Nat.pow 2 stepBits == x.steps
  | .real (.finite x), .whole m => m * Nat.pow 2 stepBits == x.steps
  | .real x, .real y => x.equal y
  | _, _ => false

mutual

/-- Equality of data: numbers by value across their kinds, records without regard to order. -/
def equal : Datum → Datum → Bool
  | null, null => true
  | text s, text t => s == t
  | list xs, list ys => equalItems xs ys
  | record fs, record gs => fs.length == gs.length && equalFields fs gs
  | a, b =>
    match a.quantity?, b.quantity? with
    | some p, some q => p.equal q
    | _, _ => false

/-- Equality of lists, member by member. -/
def equalItems : List Datum → List Datum → Bool
  | [], [] => true
  | x :: xs, y :: ys => equal x y && equalItems xs ys
  | _, _ => false

/-- Each field has an equal one among the others. -/
def equalFields : List (String × Datum) → List (String × Datum) → Bool
  | [], _ => true
  | (key, x) :: fs, gs =>
    (match Fields.get? gs key with
      | some y => equal x y
      | none => false) && equalFields fs gs

end

/-- A list of texts. -/
def texts (items : List String) : Datum := .list (items.map .text)

end Datum

end EquationStudio
