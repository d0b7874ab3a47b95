import EquationStudio.Synthesis.Text

/-!
# Reports on a diagram

A report collects what keeps a diagram from forming a full expression with valid numbers, and warns
of what looks wrong.
-/

namespace EquationStudio

/-- Errors and warnings; a diagram without errors is valid. -/
structure Report where
  errors : List String
  warnings : List String

/-- A report without errors. -/
def Report.isValid (r : Report) : Bool := r.errors.isEmpty

namespace Diagram

/-- The error of a number node that breaks its constraints. -/
def numberErrors (g : Diagram) : List Node → Except Fault (List String)
  | [] => .ok []
  | n :: rest => do
    let own ← match n.content with
      | .number v => do
        let violations ← g.constraints.violations n.id.datum v.toDatum
        if violations.isEmpty then pure []
        else
          let rules := String.intercalate ", " (← Registry.rulesOf violations)
          let name := n.ident
          let literal := v.literal
          pure [s!"Node '{name}' value {literal} violates: {rules}"]
      | _ => pure []
    return own ++ (← numberErrors g rest)

/-- Whether a node divides by a number node that holds zero. -/
def dividesByZero (g : Diagram) (n : Node) : Bool :=
  match n.inputs[1]?.bind g.producer? with
  | some divisor =>
    match divisor.content with
    | .number v => v.scaled = 0
    | _ => false
  | none => false

/-- The warnings about divisions by zero. -/
def divisionWarnings (g : Diagram) : List String :=
  ((g.nodesOfKind (.binary .divide)).filter g.dividesByZero).map fun n =>
    let name := n.ident
    s!"Node '{name}' divides by zero"

/-- What a synthesis lacks. -/
def synthesisErrors (s : Synthesis) : Except Fault (List String) := do
  let sinkErrors :=
    if !s.sink.isGiven then ["Add an OUTPUT node to generate equations"]
    else if s.expression = "" then ["The OUTPUT node has no input"]
    else []
  let loose ← s.degraded.mapM fun id => do
    let name ← id.plain
    return s!"Node '{name}' has unconnected inputs"
  return sinkErrors ++ loose

/-- The warning about output nodes that are not used, and the sink that is. -/
def chosenSink (g : Diagram) (sink : Datum) : List String × Datum :=
  match g.sinks with
  | first :: _ :: rest =>
    if sink.isGiven then ([], sink)
    else
      let count := toString (rest.length + 2)
      ([s!"{count} output nodes found; only the first is used"], first.id.datum)
  | _ => ([], sink)

/-- The report on a diagram, read from a sink. -/
def report (g : Diagram) (sink : Datum) : Except Fault Report := do
  let (warnings, sink) := g.chosenSink sink
  match g.synthesize sink with
  | .error (.cycle node _) =>
    return ⟨[s!"Equation contains circular references ({node})"], warnings⟩
  | .error fault => .error fault
  | .ok s =>
    let errors ← synthesisErrors s
    let broken ← g.numberErrors (g.nodesOfKind .number)
    return ⟨errors ++ broken, warnings ++ g.divisionWarnings⟩

end Diagram

end EquationStudio
