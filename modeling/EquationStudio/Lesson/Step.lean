import EquationStudio.Lesson.Action
import EquationStudio.Text.Blank

/-!
# The steps of a solution

A step has a number, the equation it starts from, an action, an explanation and, for some actions,
an operand. Steps can be played if there is at least one and their numbers are positive and increase
(`Playable`); `checkSteps` says what is wrong with steps that cannot.
-/

namespace EquationStudio

/-- A step of a solution. The operand is null where the action has none. -/
structure Step where
  number : Int
  equation : String
  action : Action
  explanation : String
  operand : Datum := .null

namespace Step

/-- A step as a record, with the operand only if there is one. -/
def toRecord (s : Step) : Datum :=
  .record ([("step", .int s.number), ("equation", .text s.equation),
    ("action", .text s.action.name), ("explanation", .text s.explanation)] ++
    if s.operand.isGiven then [("value", s.operand)] else [])

end Step

/-- The text of a field, which must not be blank. `place` says what the record is. -/
def requireText (fields : Fields) (key place : String) : Except Fault String :=
  match Fields.get fields key with
  | .text s =>
    if isBlankText s then .error (.schema (.textMissing place key)) else .ok s
  | _ => .error (.schema (.textMissing place key))

/-- What can be the operand of a step: nothing, a number or a text. -/
def Datum.isOperand : Datum → Bool
  | .null | .int _ | .float _ | .text _ => true
  | _ => false

namespace Step

/-- The step of a record. -/
def ofRecord (d : Datum) (place : String) : Except Fault Step :=
  match d with
  | .record fields => do
    let number ← match Fields.get fields "step" with
      | .int n => if n < 1 then .error (.sequence (.stepNumber place)) else .ok n
      | _ => .error (.sequence (.stepNumber place))
    let named := Fields.get fields "action"
    let action ← match Action.ofDatum? named with
      | some a => .ok a
      | none => do .error (.schema (.actionUnknown place (← named.display)))
    let operand := Fields.get fields "value"
    if !operand.isOperand then .error (.schema (.stepValue place))
    else
      let equation ← requireText fields "equation" place
      let explanation ← requireText fields "explanation" place
      return { number, equation, action, explanation, operand }
  | d => .error (.sequence (.stepNotMapping place d.kindName))

end Step

/-- Steps that can be played: there are some, each has a greater number than all before it, and the
first a positive one. -/
def Playable (steps : List Step) : Prop :=
  steps ≠ [] ∧ (0 :: steps.map Step.number).Pairwise (· < ·)

instance (steps : List Step) : Decidable (Playable steps) := by
  unfold Playable
  exact match steps with
  | [] => .isFalse fun h => h.1 rfl
  | s :: rest => decidable_of_iff ((0 :: (s :: rest).map Step.number).Pairwise (· < ·))
      ⟨fun h => ⟨by simp, h⟩, And.right⟩

theorem pairwise_cons_of_lt {a b : Int} {l : List Int} (hab : a < b)
    (h : (b :: l).Pairwise (· < ·)) : (a :: b :: l).Pairwise (· < ·) := by
  refine List.pairwise_cons.2 ⟨fun c hc => ?_, h⟩
  rcases List.mem_cons.1 hc with rfl | hc
  · exact hab
  · exact Int.lt_trans hab ((List.pairwise_cons.1 h).1 c hc)

/-- Something offered as a list of steps: `none` if it is no list, and `none` for a member that is
no step. -/
abbrev OfferedSteps := Option (List (Option Step))

/-- Steps whose numbers increase from above `previous`. -/
def checkIncreasing (place : String) (previous : Int) : List (Option Step) →
    Except Fault { steps : List Step // (previous :: steps.map Step.number).Pairwise (· < ·) }
  | [] => .ok ⟨[], by simp⟩
  | none :: _ => .error (.sequence (.notSteps place))
  | some s :: rest =>
    if h : previous < s.number then
      match checkIncreasing place s.number rest with
      | .ok ⟨steps, hs⟩ => .ok ⟨s :: steps, pairwise_cons_of_lt h hs⟩
      | .error fault => .error fault
    else do
      .error (.sequence (.notIncreasing place (← integerText previous) (← integerText s.number)))

/-- The steps that are offered, if they can be played. -/
def checkSteps (place : String) :
    OfferedSteps → Except Fault { steps : List Step // Playable steps }
  | none => .error (.sequence (.noSteps place))
  | some offered =>
    match checkIncreasing place 0 offered with
    | .ok ⟨s :: steps, h⟩ => .ok ⟨s :: steps, by simp, h⟩
    | .ok ⟨[], _⟩ => .error (.sequence (.noSteps place))
    | .error fault => .error fault

end EquationStudio
