import EquationStudio.Datum.Access
import EquationStudio.Diagram.Basic

/-!
# Edits of a diagram

Each edit checks all it needs and only then changes the diagram. What a rejected edit may use up is
a number for an identity that was not given, and an identity drawn for a constraint.
-/

namespace EquationStudio.Diagram

/-! ## Identities -/

/-- The first of the identities `letter ++ k`, `letter ++ (k + 1)`, … that is not taken, and the
number after its own. Among one more candidates than there are taken identities, one is free. -/
def freshId (letter : String) (taken : Key → Bool) : Nat → Nat → Identity × Nat
  | 0, k => (.ofText (letter ++ toString k), k + 1)
  | fuel + 1, k =>
    let candidate := letter ++ toString k
    if taken (.text candidate) then freshId letter taken fuel (k + 1)
    else (.ofText candidate, k + 1)

/-- The identity of the next node without a given one. -/
def freshNodeId (g : Diagram) : Identity × Nat :=
  freshId "n" g.nodes.contains g.nodes.size g.nextNode

/-- The identity of the next connection without a given one. -/
def freshConnectionId (g : Diagram) : Identity × Nat :=
  freshId "c" g.connections.contains g.connections.size g.nextConnection

/-! ## Nodes -/

/-- The ports of a node, listed. -/
def withPorts (ports : Table Port) (n : Node) : Table Port :=
  n.ports.foldl (fun t p => t.insert (.text p.id) p) ports

/-- Adds a node. -/
def addNode (g : Diagram) (n : Node) : Diagram :=
  { g with nodes := g.nodes.insert n.id.key n, ports := withPorts g.ports n }

/-- The identity asked for a new node, unless it is taken. Data that count as false ask for
none. -/
def requestedId (g : Diagram) (id : Datum) : Except Fault (Option Identity) :=
  if !id.isGiven then .ok none
  else do
    let requested ← Identity.ofDatum id
    if g.nodes.contains requested.key then
      .error (.schema (.nodeIdTaken (← id.plain)))
    else return if id.isTruthy then some requested else none

/-- Creates a node under an identity. -/
def createAs (g : Diagram) (kind position : Datum) (id : Identity) : Except Fault Node × Diagram :=
  match (do Node.make (← NodeKind.ofDatum kind) id position) with
  | .error fault => (.error fault, g)
  | .ok n => (.ok n, g.addNode n)

/-- Creates a node. The kind and the position are read after an identity has been numbered. -/
def create (g : Diagram) (kind position id : Datum) : Except Fault Node × Diagram :=
  match g.requestedId id with
  | .error fault => (.error fault, g)
  | .ok (some id) => g.createAs kind position id
  | .ok none =>
    let (id, next) := g.freshNodeId
    { g with nextNode := next }.createAs kind position id

/-- The node with the given identity; it must exist. -/
def requireNode (g : Diagram) (id : Datum) : Except Fault Node := do
  match ← g.node? id with
  | some n => return n
  | none => .error (.schema (.nodeUnknown (← id.plain)))

/-- Replaces a node by one with the same identity. -/
def replaceNode (g : Diagram) (n : Node) : Node × Diagram :=
  (n, { g with nodes := g.nodes.insert n.id.key n })

/-- Sets the value of a number node and labels it with the value. -/
def setValue (g : Diagram) (id value : Datum) : Except Fault (Node × Diagram) := do
  let n ← g.requireNode id
  match n.content with
  | .number _ =>
    let v ← Number.ofDatum value
    g.constraints.check id v.toDatum
    return g.replaceNode { n with content := .number v, label := v.literal }
  | _ => .error (.schema (.carriesNoValue n.kind.name))

/-- Sets the name of a variable node and labels it with the name. -/
def setVariable (g : Diagram) (id name : Datum) : Except Fault (Node × Diagram) := do
  let n ← g.requireNode id
  match n.content with
  | .symbol _ =>
    let name ← readVariable name
    return g.replaceNode { n with content := .symbol name, label := name }
  | _ => .error (.schema (.carriesNoSymbol n.kind.name))

/-- Sets the label of a node. -/
def setLabel (g : Diagram) (id label : Datum) : Except Fault (Node × Diagram) := do
  let n ← g.requireNode id
  match label with
  | .text s =>
    if isBlankText s then .error (.schema .labelEmpty)
    else return g.replaceNode { n with label := trimBlank s }
  | _ => .error (.schema .labelEmpty)

/-- Moves a node. -/
def move (g : Diagram) (id position : Datum) : Except Fault (Node × Diagram) := do
  let n ← g.requireNode id
  return g.replaceNode { n with position := ← Position.ofDatum position }

/-! ## Constraints -/

/-- Refuses a node that takes no constraints: one that is neither a number nor a variable. -/
def requireConstrainable (g : Diagram) (id : Datum) : Except Fault Unit := do
  let n ← g.requireNode id
  match n.content with
  | .number _ | .symbol _ => return ()
  | _ => .error (.schema (.takesNoConstraints n.kind.name))

/-- Attaches a constraint to a number or variable node. -/
def attach (g : Diagram) (id : Datum) (c : Constraint) : Except Fault (Constraint × Diagram) := do
  g.requireConstrainable id
  let constraints ← g.constraints.add (← Identity.ofDatum id) c
  return (c, { g with constraints })

/-- Attaches a constraint that is given as a record. The record is read, and an identity may be
drawn for it, only if the node takes constraints. -/
def addConstraint (g : Diagram) (supply : Supply) (id record : Datum) :
    Except Fault (Constraint × Diagram) × Supply :=
  match g.requireConstrainable id with
  | .error fault => (.error fault, supply)
  | .ok () =>
    match record with
    | .record _ =>
      let (read, supply) := Constraint.ofRecord supply record
      (do g.attach id (← read), supply)
    | _ => (.error (.schema .notConstraint), supply)

/-- Detaches a constraint; the answer says whether there was one. -/
def removeConstraint (g : Diagram) (id constraint : Datum) : Except Fault (Bool × Diagram) := do
  let (found, constraints) ← g.constraints.remove id constraint
  return (found, { g with constraints })

/-! ## Connections -/

/-- Takes a connection away. The input port becomes free if the connection that feeds it equals this
one; an undefined double equals none. -/
def dropConnection (g : Diagram) (c : Connection) : Diagram :=
  let fed := (g.feeds.get? (.text c.target)).any (·.datum.equal c.id.datum)
  { g with
    connections := g.connections.erase c.id.key
    feeds := if fed then g.feeds.erase (.text c.target) else g.feeds }

/-- The two ports of a new connection. Those of one node are refused, if its identity equals
itself. -/
def checkWire (g : Diagram) (source target : Datum) : Except Fault (Port × Port) := do
  let found ← g.port? source
  let fed ← g.port? target
  match found, fed with
  | none, _ => .error (.wiring (.sourceUnknown (← source.plain)))
  | _, none => .error (.wiring (.targetUnknown (← target.plain)))
  | some out, some into =>
    if out.side ≠ .output then .error (.wiring (.notOutputPort out.id))
    else if into.side ≠ .input then .error (.wiring (.notInputPort into.id))
    else if out.owner.datum.equal into.owner.datum then .error (.wiring .sameNode)
    else if g.feeds.contains (.text into.id) then .error (.wiring (.occupied into.id))
    else return (out, into)

/-- The identity of a new connection and the diagram with its number used up. -/
def connectionId (g : Diagram) (id : Datum) : Except Fault (Identity × Diagram) :=
  if id.isGiven then do
    let requested ← Identity.ofDatum id
    if g.connections.contains requested.key then
      .error (.wiring (.connectionIdTaken (← id.plain)))
    else return (requested, g)
  else
    let (fresh, next) := g.freshConnectionId
    .ok (fresh, { g with nextConnection := next })

/-- Adds a connection. It feeds the port at its target. -/
def addWire (g : Diagram) (c : Connection) : Diagram :=
  { g with
    connections := g.connections.insert c.id.key c
    feeds := g.feeds.insert (.text c.target) c.id }

/-- Wires an output port to a free input port of another node. -/
def addConnection (g : Diagram) (source target id : Datum) :
    Except Fault (Connection × Diagram) := do
  let (out, into) ← g.checkWire source target
  let (id, g) ← g.connectionId id
  let c : Connection := ⟨id, out.id, into.id⟩
  return (c, g.addWire c)

/-- The input port with the given number. -/
def inputAt (n : Node) (node index : Datum) : Except Fault Port := do
  match (← index.indexBelow? n.inputs.length).bind (n.inputs[·]?) with
  | some p => return p
  | none => .error (.wiring (.noInput (← node.plain) (← index.plain)))

/-- Wires the output of one node to an input of another. -/
def connect (g : Diagram) (source target index : Datum) :
    Except Fault (Connection × Diagram) := do
  let start ← g.requireNode source
  let into ← g.requireNode target
  match start.outputs with
  | [] => .error (.wiring (.noOutput (← source.plain)))
  | out :: _ =>
    let port ← inputAt into target index
    g.addConnection (.text out.id) (.text port.id) .null

/-- Removes a connection, if there is one with the given identity. -/
def removeConnection (g : Diagram) (id : Datum) : Except Fault Diagram := do
  match g.connections.get? (← id.key) with
  | some c => return g.dropConnection c
  | none => return g

/-! ## Removal -/

/-- Removes a node, the connections at its ports, its ports and its constraints. -/
def dropNode (g : Diagram) (n : Node) : Diagram :=
  let ids := n.ports.map Port.id
  let touching := g.connections.values.filter fun c =>
    ids.contains c.source || ids.contains c.target
  let g := touching.foldl dropConnection g
  { g with
    ports := ids.foldl (fun t id => t.erase (.text id)) g.ports
    constraints := g.constraints.clearAt n.id.key
    nodes := g.nodes.erase n.id.key }

/-- Removes the node with the given identity, if there is one. -/
def removeNode (g : Diagram) (id : Datum) : Except Fault Diagram := do
  match ← g.node? id with
  | some n => return g.dropNode n
  | none => return g

/-- Removes everything; the numbers used up stay used. -/
def clear (g : Diagram) : Diagram :=
  { nextNode := g.nextNode, nextConnection := g.nextConnection }

end EquationStudio.Diagram
