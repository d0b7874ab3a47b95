import EquationStudio.Datum.Display
import EquationStudio.Text.Blank

/-!
# Kinds of nodes

The kinds of nodes form a closed set. A kind determines a node's ports, its first label and what it
carries: a number, a variable or an operator between two inputs.
-/

namespace EquationStudio

/-- The operators that join two expressions. -/
inductive Operator where
  | add
  | subtract
  | multiply
  | divide
  | power
  deriving DecidableEq

/-- The kinds of nodes. -/
inductive NodeKind where
  | number
  | symbol
  | binary (op : Operator)
  | output
  deriving DecidableEq

/-- The sign of an operator in an expression. -/
def Operator.symbol : Operator → String
  | add => "+"
  | subtract => "-"
  | multiply => "*"
  | divide => "/"
  | power => "^"

/-- The name of an operator's kind of node. -/
def Operator.name : Operator → String
  | add => "add"
  | subtract => "subtract"
  | multiply => "multiply"
  | divide => "divide"
  | power => "power"

namespace NodeKind

/-- The name of a kind in records. -/
def name : NodeKind → String
  | number => "number"
  | symbol => "variable"
  | binary op => op.name
  | output => "output"

/-- All kinds, in the order in which they are offered. -/
def all : List NodeKind :=
  [number, symbol, binary .add, binary .subtract, binary .multiply, binary .divide,
    binary .power, output]

/-- What a kind is called in the editor. -/
def title : NodeKind → String
  | number => "Number Constant"
  | symbol => "Variable"
  | binary .add => "Addition"
  | binary .subtract => "Subtraction"
  | binary .multiply => "Multiplication"
  | binary .divide => "Division"
  | binary .power => "Exponentiation"
  | output => "Output"

/-- The label of a new node. -/
def label : NodeKind → String
  | number => "0"
  | symbol => "x"
  | binary .add => "+"
  | binary .subtract => "−"
  | binary .multiply => "×"
  | binary .divide => "÷"
  | binary .power => "^"
  | output => "Result"

/-- What a kind is for. -/
def description : NodeKind → String
  | number => "A numerical constant value"
  | symbol => "A mathematical variable"
  | binary .add => "Adds two numbers together"
  | binary .subtract => "Subtracts the second number from the first"
  | binary .multiply => "Multiplies two numbers together"
  | binary .divide => "Divides the first number by the second"
  | binary .power => "Raises the first number to the power of the second"
  | output => "Displays the final equation result"

/-- The names of the input ports. -/
def inputs : NodeKind → List String
  | number | symbol => []
  | binary _ => ["in1", "in2"]
  | output => ["in"]

/-- The names of the output ports. -/
def outputs : NodeKind → List String
  | output => []
  | _ => ["out"]

/-- The operator of a binary kind. -/
def operator? : NodeKind → Option Operator
  | binary op => some op
  | _ => none

/-- The kind that a datum names, by its plain form without regard to blanks around it and to
capitals. -/
def ofDatum (d : Datum) : Except Fault NodeKind := do
  let named ← d.plain
  match all.find? (·.name == lowerLatin (trimBlank named)) with
  | some kind => return kind
  | none => .error (.unknownKind (← d.display))

end NodeKind

end EquationStudio
