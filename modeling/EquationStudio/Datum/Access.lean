import EquationStudio.Datum.Display

/-!
# Taking data apart

Records from outside are taken apart field by field and member by member. Each way of access says
which kinds of datum allow it and refuses the others.
-/

namespace EquationStudio.Datum

/-- The members that a datum goes through: those of a list, the characters of a text, the keys of a
record. -/
def members : Datum → Except Fault (List Datum)
  | list items => .ok items
  | text s => .ok (s.toList.map fun c => text (String.singleton c))
  | record fields => .ok (fields.map fun f => text f.1)
  | d => .error (.datum (.notIterable d.kindName))

/-- A field that must be there. -/
def field (d : Datum) (key : String) : Except Fault Datum :=
  match d with
  | record fields =>
    match Fields.get? fields key with
    | some x => .ok x
    | none => .error (.datum (.missingKey (quoted key)))
  | d => .error (.datum (.noFields d.kindName))

/-- A field of a record, or `other` where it is missing. -/
def fieldOr (d : Datum) (key : String) (other : Datum) : Except Fault Datum :=
  match d with
  | record fields => .ok ((Fields.get? fields key).getD other)
  | d => .error (.datum (.noMethod d.kindName "get"))

/-- How many members a datum goes through. -/
def size : Datum → Except Fault Nat
  | list items => .ok items.length
  | text s => .ok s.length
  | record fields => .ok fields.length
  | d => .error (.datum (.noSize d.kindName))

/-- The fields of a record. -/
def asFields : Datum → Fields
  | record fields => fields
  | _ => []

/-- The integer that a datum is where truth values count as numbers, if it is whole. -/
def toInt? (d : Datum) : Option Int :=
  match d.quantity? with
  | some (.whole n) => some n
  | some (.real (.finite x)) => x.toInt?
  | _ => none

/-- The position below `n` that a datum gives, if it gives one. A double between the bounds is
refused, since only whole numbers are positions. -/
def indexBelow? (d : Datum) (n : Nat) : Except Fault (Option Nat) :=
  match d.quantity? with
  | some (.whole i) => .ok (if 0 ≤ i ∧ i < n then some i.toNat else none)
  | some (.real (.finite x)) =>
    if 0 ≤ x.steps ∧ x.steps < n * Nat.pow 2 stepBits then .error (.datum (.notIndex d.kindName))
    else .ok none
  | some (.real _) => .ok none
  | none => .error (.datum (.notOrdered "<=" "int" d.kindName))

end EquationStudio.Datum
