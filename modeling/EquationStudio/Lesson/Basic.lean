import EquationStudio.Lesson.Step

/-!
# Lessons

A lesson is an equation with an authored solution: steps that can be played. A record is accepted as
a lesson only if every part of it is in order; the first part that is not is named.
-/

namespace EquationStudio

/-- How hard a lesson is. -/
inductive Difficulty where
  | beginner
  | intermediate
  | advanced
  deriving DecidableEq

namespace Difficulty

/-- The name of a difficulty. -/
def name : Difficulty → String
  | beginner => "beginner"
  | intermediate => "intermediate"
  | advanced => "advanced"

/-- All difficulties. -/
def all : List Difficulty := [beginner, intermediate, advanced]

theorem mem_all (d : Difficulty) : d ∈ all := by cases d <;> decide

/-- The difficulty with a name. -/
def ofName? (s : String) : Option Difficulty := all.find? (·.name == s)

/-- The difficulty that a datum names. -/
def ofDatum? : Datum → Option Difficulty
  | .text s => ofName? s
  | _ => none

/-- The difficulty that a datum must name. -/
def ofDatum (d : Datum) : Except Fault Difficulty :=
  match ofDatum? d with
  | some difficulty => .ok difficulty
  | none => do .error (.datum (.notMember (← d.display) "Difficulty"))

end Difficulty

/-- An equation with an authored solution. -/
structure Lesson where
  id : String
  name : String
  equation : String
  difficulty : Difficulty
  topic : String
  steps : List Step
  playable : Playable steps

namespace Lesson

/-- How many steps the solution has. -/
def length (l : Lesson) : Nat := l.steps.length

theorem length_pos (l : Lesson) : 0 < l.length := List.length_pos_iff.2 l.playable.1

/-- What a lesson says about itself but for its steps. -/
def heading (l : Lesson) : Fields :=
  [("id", .text l.id), ("name", .text l.name), ("equation", .text l.equation),
    ("difficulty", .text l.difficulty.name), ("topic", .text l.topic)]

/-- A lesson as a record. -/
def toRecord (l : Lesson) : Datum :=
  .record (l.heading ++ [("steps", .list (l.steps.map Step.toRecord))])

/-- A lesson as a record with the number of steps in place of the steps. -/
def summary (l : Lesson) : Datum := .record (l.heading ++ [("total_steps", .int l.length)])

/-- Where a lesson's faults are said to be. -/
def place (id : String) : String := s!"equation {id}"

/-- The steps of a record's list, counted from `number`. -/
def readSteps (place : String) (number : Nat) : List Datum → Except Fault (List Step)
  | [] => .ok []
  | d :: ds => do
    let s ← Step.ofRecord d s!"{place} step #{number}"
    return s :: (← readSteps place (number + 1) ds)

/-- The lesson of a record. -/
def ofRecord : Datum → Except Fault Lesson
  | .record fields => do
    let id ← requireText fields "id" "equation"
    let here := place id
    let named := Fields.get fields "difficulty"
    let difficulty ← match Difficulty.ofDatum? named with
      | some d => .ok d
      | none => do .error (.schema (.difficultyUnknown here (← named.display)))
    let raw ← match Fields.get fields "steps" with
      | .list (d :: ds) => .ok (d :: ds)
      | _ => .error (.sequence (.noSteps here))
    let steps ← readSteps here 1 raw
    let name ← requireText fields "name" here
    let equation ← requireText fields "equation" here
    let topic ← requireText fields "topic" here
    let checked ← checkSteps here (some (steps.map some))
    return { id, name, equation, difficulty, topic, steps := checked, playable := checked.property }
  | _ => .error (.schema .equationNotMapping)

/-- A lesson put together from its parts, whose steps still have to be checked. -/
def assemble (id name equation : String) (difficulty : Difficulty) (topic : String)
    (offered : OfferedSteps) : Except Fault Lesson := do
  let checked ← checkSteps (place id) offered
  return { id, name, equation, difficulty, topic, steps := checked, playable := checked.property }

end Lesson

end EquationStudio
