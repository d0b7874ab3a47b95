import EquationStudio.Diagram.Basic

/-!
# The walk behind a sink

An expression is read off a diagram backwards, from the node that feeds the sink to the leaves. An
`Emitter` says what is made of each node. The walk keeps its own stack, so its depth is bounded by
memory alone, and remembers what was made of each node, so a shared node is worked out once; a node
met again while it is still being worked out closes a cycle.

Each round of the walk takes one task from the stack, and only a wired binary node puts tasks back,
three of them, once. `Walk.budget` rounds are therefore enough to empty the stack.
-/

namespace EquationStudio

/-- What is made of the nodes of an expression. -/
structure Emitter (α : Type) where
  number : Number → α
  symbol : String → α
  binary : Operator → α → α → Except Fault α
  /-- A node in the place of an expression whose inputs are not all connected. -/
  degraded : Node → α

namespace Walk

/-- What remains to be done about a node. -/
inductive Task where
  /-- Look at a node that may be new. -/
  | enter (n : Node)
  /-- Join what was made of both producers of a wired binary node. -/
  | join (n : Node) (op : Operator) (left right : Node)

/-- The state of a walk. -/
structure State (α : Type) where
  stack : List Task
  /-- What was made of the nodes that are done. -/
  memo : Table α := .empty
  /-- The nodes being worked out, the innermost first. -/
  path : List Node := []
  /-- The degraded nodes met so far, the last one first. -/
  degraded : List Node := []

/-- The names of a cycle: the path to a node that is met again, and that node. Only texts can be
strung together. -/
def cycleNames : Nat → List Node → Except Fault (List String)
  | _, [] => .ok []
  | i, n :: rest =>
    match n.id.datum with
    | .text s => return s :: (← cycleNames (i + 1) rest)
    | d => .error (.datum (.notText i d.kindName))

/-- The fault of meeting a node again on the path to it. -/
def cycleFault (path : List Node) (n : Node) : Fault :=
  match cycleNames 0 (path.reverse ++ [n]) with
  | .ok _ => .cycle n.ident (path.reverse.map Node.ident)
  | .error fault => fault

/-- The producers of the two inputs of a binary node, if both are fed. -/
def producers? (g : Diagram) (n : Node) : Option (Node × Node) :=
  match n.inputs with
  | [first, second] => do
    let left ← g.producer? first
    let right ← g.producer? second
    return (left, right)
  | _ => none

variable {α : Type}

/-- Keeps what was made of a node. -/
def State.finish (s : State α) (n : Node) (a : α) : State α :=
  { s with memo := s.memo.insert n.id.key a }

/-- Keeps a node whose place in the expression is taken by its label. -/
def State.degrade (e : Emitter α) (s : State α) (n : Node) : State α :=
  { s.finish n (e.degraded n) with degraded := n :: s.degraded }

/-- Looks at a node. -/
def State.enter (g : Diagram) (e : Emitter α) (s : State α) (n : Node) :
    Except Fault (State α) :=
  if s.path.any (·.id.key = n.id.key) then .error (cycleFault s.path n)
  else if s.memo.contains n.id.key then .ok s
  else
    match n.content with
    | .number v => .ok (s.finish n (e.number v))
    | .symbol name => .ok (s.finish n (e.symbol name))
    | .binary op =>
      match producers? g n with
      | none => .ok (s.degrade e n)
      | some (left, right) =>
        .ok { s with
          path := n :: s.path
          stack := .enter left :: .enter right :: .join n op left right :: s.stack }
    | .output => .ok (s.degrade e n)

/-- Joins what was made of both producers of a binary node, which is then done. -/
def State.join (e : Emitter α) (s : State α) (n : Node) (op : Operator) (left right : Node) :
    Except Fault (State α) :=
  let s := { s with path := s.path.tail }
  match s.memo.get? left.id.key, s.memo.get? right.id.key with
  | some a, some b => return s.finish n (← e.binary op a b)
  | _, _ => .ok s

/-- One round: the topmost task. -/
def State.step (g : Diagram) (e : Emitter α) (s : State α) : Except Fault (State α) :=
  match s.stack with
  | [] => .ok s
  | .enter n :: rest => State.enter g e { s with stack := rest } n
  | .join n op left right :: rest => State.join e { s with stack := rest } n op left right

/-- Rounds until the stack is empty, at most the given number. -/
def run (g : Diagram) (e : Emitter α) : Nat → State α → Except Fault (State α)
  | 0, s => .ok s
  | rounds + 1, s => if s.stack.isEmpty then .ok s else do run g e rounds (← s.step g e)

/-- Enough rounds for any walk through a diagram. -/
def budget (g : Diagram) : Nat := 1 + 3 * g.nodes.size

end Walk

/-- What a walk made of the node behind a sink, and the degraded nodes in the order in which they
were met. -/
structure Walked (α : Type) where
  value : Option α
  degraded : List Node

/-- The node that feeds a sink. -/
def Diagram.root? (g : Diagram) (sink : Node) : Option Node := do
  let port ← sink.inputs.head?
  g.producer? port

/-- Walks through the nodes behind a sink. -/
def Diagram.walk {α : Type} (g : Diagram) (e : Emitter α) (sink : Node) :
    Except Fault (Walked α) :=
  match g.root? sink with
  | none => .ok ⟨none, []⟩
  | some first => do
    let s ← Walk.run g e (Walk.budget g) { stack := [.enter first] }
    return ⟨s.memo.get? first.id.key, s.degraded.reverse⟩

/-! ## The sink -/

/-- The output node from which an expression is read: the one asked for, or the first one if none is
asked for. -/
def Diagram.resolveSink (g : Diagram) (sink : Datum) : Except Fault (Option Node) :=
  if sink.isGiven then do
    match ← g.node? sink with
    | some n =>
      if n.kind = .output then return some n
      else .error (.schema (.notOutput (← sink.plain)))
    | none => .error (.schema (.notOutput (← sink.plain)))
  else .ok g.sinks.head?

end EquationStudio
