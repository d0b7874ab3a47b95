import EquationStudio.Tutor.Engine

/-!
# What a tutor tells about itself

Statistics of the attempt, the explanation of a step, and a summary once a lesson is completed.
-/

namespace EquationStudio

/-- The part of the lesson that is done. A zero keeps its sign. -/
def Attempt.progress (a : Attempt) : Double :=
  match a.double? with
  | none => Double.ofRat (mkRat a.index a.total)
  | some x => if x.steps = 0 then .finite x else Double.ofRat (x.toRat / a.total)

/-- The explanation of the step with a number. -/
def Step.explained (s : Step) (number : Nat) : Datum :=
  .record [("step_number", .int number), ("action", .text s.action.name),
    ("explanation", .text s.explanation), ("equation", .text s.equation), ("value", s.operand),
    ("tip", .text s.action.tip)]

/-- The explanation of a step, counted from zero. -/
def Lesson.explain (l : Lesson) (index : Nat) : Option Datum :=
  l.steps[index]?.map (·.explained (index + 1))

/-- A hint as a record. -/
def Hint.toRecord (h : Hint) : Datum :=
  .record [("step_number", .int h.number), ("hint", .text h.tip), ("action_hint", .text h.nudge)]

namespace Tutor

/-- The statistics of the attempt. -/
def stats? (t : Tutor) : Option Datum := do
  let a ← t.attempt?
  let l ← t.lesson?
  return .record [("equation_id", .text l.id), ("current_step", a.shownIndex),
    ("total_steps", .int a.total), ("progress", .float a.progress), ("hints_used", .int a.hints),
    ("time_spent_ms", .int a.elapsed), ("state", .text t.phase.name)]

/-- The explanation of a step, of the next one unless a number is given. -/
def explanation? (t : Tutor) (index : Datum) : Except Fault (Option Datum) :=
  match t.lesson?, t.attempt? with
  | some l, some a => do
    let asked := if index.isGiven then index else a.shownIndex
    return (← asked.indexBelow? l.length).bind l.explain
  | _, _ => .ok none

/-- The summary of a completed lesson, but for the moment of its completion. -/
def summary? (t : Tutor) : Option Fields :=
  if t.phase = .completed then do
    let l ← t.lesson?
    let a ← t.attempt?
    return [("sequence_id", .text l.id), ("sequence_name", .text l.name),
      ("difficulty", .text l.difficulty.name), ("topic", .text l.topic),
      ("total_time_ms", .int a.elapsed), ("hints_used", .int a.hints)]
  else none

end Tutor

end EquationStudio
