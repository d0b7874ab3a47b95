import EquationStudio.Constraint.Conflict
import EquationStudio.Constraint.Record
import EquationStudio.Table

/-!
# Constraints of a diagram's nodes

A registry keeps lists of constraints under targets, which are identities of nodes. A constraint is
attached only if its identity is new to the target and it conflicts with none attached there; a
target without constraints is not kept.
-/

namespace EquationStudio

/-- A target as it was first named, and its constraints in order of attachment. -/
structure Attached where
  target : Identity
  constraints : List Constraint

/-- A constraint that a value breaks. -/
structure Violation where
  constraint : Constraint
  value : Datum

/-- Constraints under targets. -/
structure Registry where
  table : Table Attached := .empty

namespace Registry

/-- The constraints of a target. -/
def constraintsAt (r : Registry) (key : Key) : List Constraint :=
  ((r.table.get? key).map Attached.constraints).getD []

/-- The constraints of a target. -/
def constraintsFor (r : Registry) (target : Datum) : Except Fault (List Constraint) :=
  return r.constraintsAt (← target.key)

/-- How many constraints there are. -/
def size (r : Registry) : Nat := r.table.values.foldl (fun n a => n + a.constraints.length) 0

/-- The targets that have constraints. -/
def targets (r : Registry) : List Datum := r.table.values.map (·.target.datum)

/-- The conflicts of a constraint with those attached to its target. -/
def conflictsWith (c : Constraint) : List Constraint → Except Fault (List ConflictKind)
  | [] => .ok []
  | other :: rest => do
    let found ← other.findConflict c
    return found.toList ++ (← conflictsWith c rest)

/-- Attaches a constraint to a target. -/
def add (r : Registry) (target : Identity) (c : Constraint) : Except Fault Registry := do
  let existing := r.constraintsAt target.key
  if existing.any (·.id.equal c.id) then
    .error (.schema (.constraintIdTaken (← c.id.plain)))
  else
    let kinds ← conflictsWith c existing
    if kinds.isEmpty then
      let known := ((r.table.get? target.key).map Attached.target).getD target
      return ⟨r.table.insert target.key ⟨known, existing ++ [c]⟩⟩
    else .error (.conflict (← target.datum.plain) (kinds.map ConflictKind.name))

/-- Detaches the constraint with the given identity; the answer says whether there was one. -/
def remove (r : Registry) (target id : Datum) : Except Fault (Bool × Registry) := do
  let key ← target.key
  match r.table.get? key with
  | none => return (false, r)
  | some attached =>
    let kept := attached.constraints.eraseP (·.id.equal id)
    if kept.length = attached.constraints.length then return (false, r)
    else if kept.isEmpty then return (true, ⟨r.table.erase key⟩)
    else return (true, ⟨r.table.insert key ⟨attached.target, kept⟩⟩)

/-- Detaches all constraints of a target. -/
def clearAt (r : Registry) (key : Key) : Registry := ⟨r.table.erase key⟩

/-- Detaches all constraints of a target, or of every target if it is null. Nothing is looked up
where there are no constraints. -/
def clear (r : Registry) (target : Datum) : Except Fault Registry :=
  if !target.isGiven then .ok {}
  else if r.table.isEmpty then .ok r
  else return r.clearAt (← target.key)

/-- The constraints of a list that a value breaks. -/
def broken (value : Datum) : List Constraint → Except Fault (List Violation)
  | [] => .ok []
  | c :: rest => do
    let holds ← c.satisfies value
    let others ← broken value rest
    return if holds then others else ⟨c, value⟩ :: others

/-- The constraints of a target that a value breaks. -/
def violations (r : Registry) (target value : Datum) : Except Fault (List Violation) := do
  broken value (← r.constraintsFor target)

/-- The descriptions of broken constraints. -/
def rulesOf (violations : List Violation) : Except Fault (List String) :=
  violations.mapM (·.constraint.describe)

/-- Refuses a value that breaks a constraint of the target. -/
def check (r : Registry) (target value : Datum) : Except Fault Unit := do
  let violations ← r.violations target value
  if violations.isEmpty then return ()
  else
    let rules ← rulesOf violations
    .error (.violation (← target.plain) rules)

/-- A constraint in an overview. -/
def summaryOf (c : Constraint) : Except Fault Datum :=
  return .record [("id", c.id), ("type", .text c.kind.name),
    ("description", .text (← c.describe)), ("active", .bool c.active)]

/-- An overview of a target's constraints. -/
def summary (r : Registry) (target : Datum) : Except Fault (List Datum) := do
  (← r.constraintsFor target).mapM summaryOf

/-- The records of all constraints, each with its target. -/
def toRecords (r : Registry) : List Datum :=
  r.table.values.flatMap fun a =>
    a.constraints.map fun c => .record (("target", a.target.datum) :: c.fields)

end Registry

end EquationStudio
