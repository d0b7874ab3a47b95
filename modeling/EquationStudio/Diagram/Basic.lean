import EquationStudio.Constraint.Registry
import EquationStudio.Diagram.Node

/-!
# Diagrams

A diagram holds the nodes and the connections of one canvas, the ports of all nodes, for each fed
input port the identity of the connection that feeds it, and the constraints on its nodes' values.
Identities that are not given are numbered, and the numbers are not used again.
-/

namespace EquationStudio

/-- A wire from an output port to an input port. -/
structure Connection where
  id : Identity
  source : String
  target : String

/-- The record of a connection. -/
def Connection.toRecord (c : Connection) : Datum :=
  .record [("id", c.id.datum), ("source", .text c.source), ("target", .text c.target)]

/-- The nodes and connections of one canvas. -/
structure Diagram where
  nodes : Table Node := .empty
  connections : Table Connection := .empty
  ports : Table Port := .empty
  /-- For each fed input port, the connection that feeds it. -/
  feeds : Table Identity := .empty
  /-- The number of the next node without a given identity … -/
  nextNode : Nat := 1
  /-- … and of the next such connection. -/
  nextConnection : Nat := 1
  constraints : Registry := {}

namespace Diagram

/-- The node with the given identity. -/
def node? (g : Diagram) (id : Datum) : Except Fault (Option Node) :=
  return g.nodes.get? (← id.key)

/-- The port with the given identity. -/
def port? (g : Diagram) (id : Datum) : Except Fault (Option Port) :=
  return g.ports.get? (← id.key)

/-- The node that a port is listed for. -/
def owner? (g : Diagram) (key : Key) : Option Node := do
  let port ← g.ports.get? key
  g.nodes.get? port.owner.key

/-- The node that has the given port. -/
def nodeForPort? (g : Diagram) (port : Datum) : Except Fault (Option Node) :=
  return g.owner? (← port.key)

/-- The connection that feeds an input port. A connection whose identity counts as false is not
found. -/
def feeding? (g : Diagram) (key : Key) : Option Connection := do
  let id ← g.feeds.get? key
  if id.datum.isTruthy then g.connections.get? id.key else none

/-- The connection that feeds the given port. -/
def incoming? (g : Diagram) (port : Datum) : Except Fault (Option Connection) :=
  return g.feeding? (← port.key)

/-- The node whose output feeds the given input port. -/
def producer? (g : Diagram) (port : Port) : Option Node := do
  let connection ← g.feeding? (.text port.id)
  g.owner? (.text connection.source)

/-- The connections that leave the given port. -/
def connectionsFrom (g : Diagram) (port : Datum) : List Connection :=
  g.connections.values.filter fun c => port.equal (.text c.source)

/-- The nodes of a kind, in order of creation. -/
def nodesOfKind (g : Diagram) (kind : NodeKind) : List Node :=
  g.nodes.values.filter (·.kind = kind)

/-- The output nodes, in order of creation. -/
def sinks (g : Diagram) : List Node := g.nodesOfKind .output

/-- How many nodes of each kind there are, in the order in which the kinds first occur. -/
def kindCounts (g : Diagram) : Fields :=
  g.nodes.values.foldl (fun counts n =>
    let before := match Fields.get counts n.kind.name with
      | .int k => k
      | _ => 0
    Fields.set counts n.kind.name (.int (before + 1))) []

/-- The sizes of a diagram. -/
def stats (g : Diagram) : Datum :=
  .record [("total_nodes", .int g.nodes.size), ("node_types", .record g.kindCounts),
    ("total_connections", .int g.connections.size)]

/-- A diagram in one line. -/
def overview (g : Diagram) : String :=
  let nodes := toString g.nodes.size
  let connections := toString g.connections.size
  s!"Graph(nodes={nodes}, connections={connections})"

/-- The record of a diagram. -/
def toRecord (g : Diagram) : Datum :=
  .record [("nodes", .list (g.nodes.values.map Node.toRecord)),
    ("connections", .list (g.connections.values.map Connection.toRecord)),
    ("constraints", .list g.constraints.toRecords)]

end Diagram

end EquationStudio
