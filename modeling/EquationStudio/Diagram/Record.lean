import EquationStudio.Datum.Access
import EquationStudio.Diagram.Edit

/-!
# Records of diagrams

A diagram is rebuilt from its record by the same edits by which it was made, so a record is accepted
only if every edit is. Labels are set last, since values and variables reset them.
-/

namespace EquationStudio.Diagram

/-- Sets the value of a rebuilt number node, if the record gives one. -/
def restoreValue (g : Diagram) (n : Node) (raw : Datum) : Except Fault Diagram := do
  match n.content with
  | .number _ =>
    let value ← raw.fieldOr "value" .null
    if value.isGiven then return (← g.setValue n.id.datum value).2 else return g
  | _ => return g

/-- Sets the name of a rebuilt variable node, if the record gives one. -/
def restoreVariable (g : Diagram) (n : Node) (raw : Datum) : Except Fault Diagram := do
  match n.content with
  | .symbol _ =>
    let name ← raw.fieldOr "variable" .null
    if name.isTruthy then return (← g.setVariable n.id.datum name).2 else return g
  | _ => return g

/-- Sets the label of a rebuilt node, if the record gives one. -/
def restoreLabel (g : Diagram) (n : Node) (raw : Datum) : Except Fault Diagram := do
  let label ← raw.fieldOr "label" .null
  if label.isTruthy then return (← g.setLabel n.id.datum label).2 else return g

/-- Rebuilds a node. -/
def restoreNode (g : Diagram) (raw : Datum) : Except Fault Diagram := do
  let kind ← raw.field "type"
  let (made, g) := g.create kind (← raw.fieldOr "position" .null) (← raw.fieldOr "id" .null)
  let n ← made
  let g ← g.restoreValue n raw
  let g ← g.restoreVariable n raw
  g.restoreLabel n raw

/-- Rebuilds a connection. -/
def restoreConnection (g : Diagram) (raw : Datum) : Except Fault Diagram := do
  let source ← raw.field "source"
  let target ← raw.field "target"
  return (← g.addConnection source target (← raw.fieldOr "id" .null)).2

/-- Rebuilds constraints, one after another. -/
def restoreConstraints (g : Diagram) (supply : Supply) :
    List Datum → Except Fault Diagram × Supply
  | [] => (.ok g, supply)
  | raw :: rest =>
    match raw.field "target" with
    | .error fault => (.error fault, supply)
    | .ok target =>
      match g.addConstraint supply target raw with
      | (.error fault, supply) => (.error fault, supply)
      | (.ok (_, g), supply) => restoreConstraints g supply rest

/-- Rebuilds the nodes and connections of a record. -/
def restoreParts (data : Datum) : Except Fault (Diagram × List Datum) := do
  let nodes ← (← data.fieldOr "nodes" (.list [])).members
  let g ← nodes.foldlM restoreNode {}
  let connections ← (← data.fieldOr "connections" (.list [])).members
  let g ← connections.foldlM restoreConnection g
  return (g, ← (← data.fieldOr "constraints" (.list [])).members)

/-- The diagram of a record. -/
def ofRecord (supply : Supply) (data : Datum) : Except Fault Diagram × Supply :=
  match restoreParts data with
  | .error fault => (.error fault, supply)
  | .ok (g, constraints) => g.restoreConstraints supply constraints

/-- A diagram rebuilt from its own record: the numbers used up are forgotten. -/
def copy (g : Diagram) (supply : Supply) : Except Fault Diagram × Supply :=
  ofRecord supply g.toRecord

end EquationStudio.Diagram
