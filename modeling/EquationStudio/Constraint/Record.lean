import EquationStudio.Constraint.Wording
import EquationStudio.Supply

/-!
# Records of constraints

A constraint is kept as a record with its identity, its kind, whether it is active, and the fields
that its kind uses. Reading a record takes every known field, whether the kind uses it or not, and
draws an identity if the record has none; it is drawn before the rule is read, so a refused record
may have drawn one too.
-/

namespace EquationStudio

namespace Constraint

/-- The fields that a constraint's kind uses. -/
def ownFields (c : Constraint) : Fields :=
  match c.rule with
  | .comparison _ _ => [("value", c.terms.value)]
  | .range .. => [("min", c.terms.minimum), ("max", c.terms.maximum),
      ("min_inclusive", .bool c.terms.minInclusive),
      ("max_inclusive", .bool c.terms.maxInclusive)]
  | .domain d => [("domain", .text d.name)]
  | .sign s => [("sign", .text s.name)]
  | .parity p => [("parity", .text p.name)]
  | .divisible _ => [("divisor", c.terms.divisor)]
  | .prime | .perfectSquare | .fibonacci => []

/-- The fields of a constraint's record. -/
def fields (c : Constraint) : Fields :=
  [("id", c.id), ("type", .text c.kind.name), ("active", .bool c.active)] ++ c.ownFields

/-- The record of a constraint. -/
def toRecord (c : Constraint) : Datum := .record c.fields

/-- The member of a closed set that a field names; an absent or null field names none. -/
def optionalMember {α : Type} (fields : Fields) (key set : String) (all : List α)
    (name : α → String) : Except DatumFault (Option α) :=
  let d := Fields.get fields key
  if d.isGiven then (d.memberOf set all name).map some else .ok none

/-- The truth of a flag, true if it is absent. -/
def flag (fields : Fields) (key : String) : Bool :=
  ((Fields.get? fields key).map Datum.isTruthy).getD true

/-- The kind and the terms of a record. -/
def readTerms (fields : Fields) : Except DatumFault (ConstraintKind × Terms) := do
  let kind ← (Fields.get fields "type").memberOf "ConstraintType" ConstraintKind.all
    ConstraintKind.name
  let domain ← optionalMember fields "domain" "Domain" Domain.all Domain.name
  let sign ← optionalMember fields "sign" "Sign" Sign.all Sign.name
  let parity ← optionalMember fields "parity" "Parity" Parity.all Parity.name
  return (kind, {
    value := Fields.get fields "value"
    minimum := Fields.get fields "min"
    maximum := Fields.get fields "max"
    minInclusive := flag fields "min_inclusive"
    maxInclusive := flag fields "max_inclusive"
    domain, sign, parity
    divisor := Fields.get fields "divisor" })

/-- Draws the identity of a constraint. -/
def drawId (supply : Supply) : Datum × Supply :=
  let (id, supply) := supply.draw 8
  (.text id, supply)

/-- Reads the record of a constraint. -/
def ofRecord (supply : Supply) (d : Datum) : Except Fault Constraint × Supply :=
  match d with
  | .record fields =>
    match readTerms fields with
    | .error cause => (.error (.schema (.constraintField cause)), supply)
    | .ok (kind, terms) =>
      let given := Fields.get fields "id"
      let (id, supply) := if given.isTruthy then (given, supply) else drawId supply
      (Constraint.ofTerms id (flag fields "active") kind terms, supply)
  | _ => (.error (.schema .constraintNotMapping), supply)

/-- A new active constraint of the given terms. -/
def make (supply : Supply) (kind : ConstraintKind) (terms : Terms) :
    Except Fault Constraint × Supply :=
  let (id, supply) := drawId supply
  (Constraint.ofTerms id true kind terms, supply)

/-- Two constraints have equal fields. -/
def agrees (a b : Constraint) : Bool :=
  a.id.equal b.id && a.active == b.active && a.kind == b.kind &&
  a.terms.value.equal b.terms.value && a.terms.minimum.equal b.terms.minimum &&
  a.terms.maximum.equal b.terms.maximum && a.terms.minInclusive == b.terms.minInclusive &&
  a.terms.maxInclusive == b.terms.maxInclusive && a.terms.domain == b.terms.domain &&
  a.terms.sign == b.terms.sign && a.terms.parity == b.terms.parity &&
  a.terms.divisor.equal b.terms.divisor

/-! ## Builders -/

/-- A comparison with a constant. -/
def compare (supply : Supply) (relation : Relation) (value : Datum) :
    Except Fault Constraint × Supply :=
  make supply (.comparison relation) { value }

/-- A range between two bounds. -/
def between (supply : Supply) (minimum maximum : Datum) (minInclusive maxInclusive : Bool) :
    Except Fault Constraint × Supply :=
  make supply .range { minimum, maximum, minInclusive, maxInclusive }

/-- Membership in a domain, named by its symbol. -/
def inDomain (supply : Supply) (domain : Datum) : Except Fault Constraint × Supply :=
  match domain.memberOf "Domain" Domain.all Domain.name with
  | .ok d => make supply .domain { domain := some d }
  | .error (.notMember shown _) => (.error (.schema (.domainUnknown shown)), supply)
  | .error cause => (.error (.datum cause), supply)

/-- A sign. -/
def ofSign (supply : Supply) (sign : Sign) : Except Fault Constraint × Supply :=
  make supply .sign { sign := some sign }

/-- A parity. -/
def ofParity (supply : Supply) (parity : Parity) : Except Fault Constraint × Supply :=
  make supply .parity { parity := some parity }

/-- Divisibility by a constant. -/
def divisibleBy (supply : Supply) (divisor : Datum) : Except Fault Constraint × Supply :=
  make supply .divisible { divisor }

/-- A kind that needs no terms, such as primality. -/
def plain (supply : Supply) (kind : ConstraintKind) : Except Fault Constraint × Supply :=
  make supply kind {}

/-- The refusal of a kind that is given as plain data instead of by a builder. -/
def ofPlainKind (d : Datum) : Except Fault Constraint := do
  .error (.schema (.constraintKindUnknown (← d.display)))

end Constraint

end EquationStudio
