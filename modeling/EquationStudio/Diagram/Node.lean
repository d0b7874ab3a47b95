import EquationStudio.Diagram.Kind
import EquationStudio.Number

/-!
# Nodes and ports

A node has an identity, a place, a label and what its kind carries. Its ports follow from its
identity and its kind alone: a port's identity is the node's, a hyphen and the port's name.
-/

namespace EquationStudio

/-- The side of a node on which a port lies. -/
inductive Side where
  | input
  | output
  deriving DecidableEq

/-- The name of a side. -/
def Side.name : Side → String
  | input => "input"
  | output => "output"

/-- A port of a node. -/
structure Port where
  id : String
  owner : Identity
  side : Side

/-- A place on the canvas. -/
structure Position where
  x : Double := .finite .zero
  y : Double := .finite .zero

/-- What a node carries. -/
inductive Content where
  | number (value : Number)
  | symbol (name : String)
  | binary (op : Operator)
  | output

/-- A node of a diagram. `ident` is the node's identity in words, of which its ports' are made. -/
structure Node where
  id : Identity
  ident : String
  content : Content
  label : String
  position : Position

/-- The kind of what a node carries. -/
def Content.kind : Content → NodeKind
  | number _ => .number
  | symbol _ => .symbol
  | binary op => .binary op
  | output => .output

/-- What a new node of a kind carries. -/
def NodeKind.content : NodeKind → Content
  | number => .number (.whole 0)
  | symbol => .symbol "x"
  | binary op => .binary op
  | output => .output

/-! ## Positions -/

namespace Position

/-- A position from two coordinates. -/
def ofPair (x y : Datum) : Except Fault Position := return ⟨← x.toDouble, ← y.toDouble⟩

/-- A position from the members of something that has members. -/
def ofMembers : List Datum → Except Fault Position
  | [x, y] => ofPair x y
  | members =>
    if members.length < 2 then .error (.datum (.tooFewCoordinates members.length))
    else .error (.datum .tooManyCoordinates)

/-- The position that a datum gives: the origin for null, the coordinates of a mapping, zero where
one is missing, or the two members of a list or characters of a text. -/
def ofDatum : Datum → Except Fault Position
  | .null => .ok {}
  | .record fields =>
    ofPair ((Fields.get? fields "x").getD (.int 0)) ((Fields.get? fields "y").getD (.int 0))
  | .list items => ofMembers items
  | .text s => ofMembers (s.toList.map fun c => .text (String.singleton c))
  | d => .error (.datum (.notUnpackable d.kindName))

/-- The record of a position. -/
def toRecord (p : Position) : Datum := .record [("x", .float p.x), ("y", .float p.y)]

end Position

/-! ## Ports -/

namespace Node

/-- The kind of a node. -/
def kind (n : Node) : NodeKind := n.content.kind

/-- A port of a node. -/
def port (n : Node) (side : Side) (name : String) : Port := ⟨n.ident ++ "-" ++ name, n.id, side⟩

/-- The input ports, in order. -/
def inputs (n : Node) : List Port := n.kind.inputs.map (n.port .input)

/-- The output ports. -/
def outputs (n : Node) : List Port := n.kind.outputs.map (n.port .output)

/-- All ports, inputs first. -/
def ports (n : Node) : List Port := n.inputs ++ n.outputs

/-- A new node of a kind. The identity is put into words before the position is read. -/
def make (kind : NodeKind) (id : Identity) (position : Datum) : Except Fault Node := do
  let ident ← id.datum.plain
  let position ← Position.ofDatum position
  return { id, ident, content := kind.content, label := kind.label, position }

/-- The value that a node carries, null if it carries none. -/
def value (n : Node) : Datum :=
  match n.content with
  | .number v => v.toDatum
  | _ => .null

/-- The variable that a node carries, null if it carries none. -/
def variableName (n : Node) : Datum :=
  match n.content with
  | .symbol name => .text name
  | _ => .null

/-- The record of a node. -/
def toRecord (n : Node) : Datum :=
  .record [("id", n.id.datum), ("type", .text n.kind.name), ("label", .text n.label),
    ("position", n.position.toRecord), ("value", n.value), ("variable", n.variableName)]

end Node

/-- The record of a port. -/
def Port.toRecord (p : Port) : Datum :=
  .record [("id", .text p.id), ("node_id", p.owner.datum), ("direction", .text p.side.name)]

/-! ## Names of variables -/

/-- How many characters the name of a variable may have. -/
abbrev variableLimit : Nat := 20

/-- A letter that may begin a variable: Latin, or Greek from alpha to omega. -/
def isVariableLetter (c : Char) : Bool :=
  c.isAlpha || ('α' ≤ c && c ≤ 'ω') || ('Α' ≤ c && c ≤ 'Ω')

/-- Letters, then letters and Latin digits. -/
def isVariableName : List Char → Bool
  | [] => false
  | c :: rest => isVariableLetter c && rest.all fun d => isVariableLetter d || d.isDigit

/-- The name of a variable that a datum spells, without blanks around it. -/
def readVariable : Datum → Except Fault String
  | .text s =>
    let name := trimBlank s
    if name = "" then .error (.schema .variableMissing)
    else if variableLimit < name.length then .error (.schema (.variableTooLong variableLimit))
    else if isVariableName name.toList then .ok name
    else .error (.schema .variableMalformed)
  | _ => .error (.schema .variableMissing)

end EquationStudio
