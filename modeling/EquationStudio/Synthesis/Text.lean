import EquationStudio.Journal
import EquationStudio.Synthesis.Walk

/-!
# Expressions as text

Every binary expression stands in parentheses, so the structure of the diagram alone decides what
belongs together. A node with a loose input stands for itself by its label.
-/

namespace EquationStudio

/-- A binary expression in text. -/
def Operator.joined (op : Operator) (left right : String) : String :=
  "(" ++ left ++ " " ++ op.symbol ++ " " ++ right ++ ")"

/-- Expressions in text. -/
def textEmitter : Emitter String where
  number := Number.literal
  symbol := id
  binary op left right := .ok (op.joined left right)
  degraded n := n.label

/-- An expression read off a diagram. -/
structure Synthesis where
  expression : String
  /-- The identity of the sink it was read from, null if the diagram has none. -/
  sink : Datum
  complete : Bool
  degraded : List Datum

namespace Diagram

/-- The journal of a reading without a chosen sink in a diagram with several. -/
def sinkJournal (g : Diagram) (sink : Datum) : Journal :=
  match g.sinks with
  | first :: _ :: rest =>
    if sink.isGiven then []
    else
      let count := toString (rest.length + 2)
      let name := first.ident
      [⟨"builder.synthesis", .warning,
        s!"Graph has {count} output nodes; synthesizing from the first ({name})"⟩]
  | _ => []

/-- The expression behind a sink, with what it lacks. -/
def synthesize (g : Diagram) (sink : Datum) : Except Fault Synthesis := do
  match ← g.resolveSink sink with
  | none => return ⟨"", .null, false, []⟩
  | some n =>
    let walked ← g.walk textEmitter n
    match walked.value with
    | none => return ⟨"", n.id.datum, false, []⟩
    | some text =>
      return ⟨text, n.id.datum, walked.degraded.isEmpty, walked.degraded.map (·.id.datum)⟩

end Diagram

end EquationStudio
