import EquationStudio.Lesson.Advice
import EquationStudio.Lesson.Basic

/-!
# Attempts at a lesson

An attempt says how far a student has come in a lesson, how many hints were asked for and how much
time was spent. The index counts the steps that are done, so it stands behind the last step once
the lesson is completed. A student who goes to a step may give its number otherwise than as an
integer. A truth value counts as an integer, but a double stays a double from then on: it is moved
and compared like a number, and it is no index of a step.
-/

namespace EquationStudio

/-- A number of a step that is no integer. -/
inductive Uncounted where
  | truth (b : Bool)
  | double (x : FiniteDouble)

/-- A number of a step as a datum. -/
def Uncounted.toDatum : Uncounted → Datum
  | truth b => .bool b
  | double x => .float (.finite x)

/-- How far a student has come in a lesson. -/
structure Attempt where
  /-- How many steps the lesson has. -/
  total : Nat
  index : Nat := 0
  hints : Nat := 0
  /-- The time spent, in milliseconds. -/
  elapsed : Nat := 0
  /-- The number of the step to which the student went, if it was given as no integer. -/
  uncounted? : Option Uncounted := none

namespace Attempt

/-- The double in the place of the index, if there is one. -/
def double? (a : Attempt) : Option FiniteDouble :=
  match a.uncounted? with
  | some (.double x) => some x
  | some (.truth _) | none => none

/-- The index as it is shown. -/
def shownIndex (a : Attempt) : Datum :=
  match a.uncounted? with
  | some given => given.toDatum
  | none => .int a.index

/-- Whether all steps are done. -/
def isCompleted (a : Attempt) : Bool :=
  match a.double? with
  | none => a.index = a.total
  | some x => x.steps = a.total * Nat.pow 2 stepBits

/-- The number of the step that the student looks at: the next one, or the last one at the end. A
double that is not beyond the last one is no number of a step. -/
def lookedAt (a : Attempt) : Except Fault Nat :=
  match a.double? with
  | none => .ok (min a.index (a.total - 1))
  | some x =>
    if (a.total - 1 : Nat) * Nat.pow 2 stepBits < x.steps then .ok (a.total - 1)
    else .error (.datum (.notIndex "float"))

/-- One more hint was asked for. -/
def countHint (a : Attempt) : Attempt := { a with hints := a.hints + 1 }

/-- More time was spent. -/
def spend (a : Attempt) (ms : Nat) : Attempt := { a with elapsed := a.elapsed + ms }

/-- The attempt at a given step. -/
def at? (a : Attempt) (index : Int) : Option Attempt :=
  if 0 ≤ index ∧ index < a.total then some { a with index := index.toNat, uncounted? := none }
  else none

/-- The attempt at the step that a datum gives. -/
def goTo? (a : Attempt) : Datum → Except Fault (Option Attempt)
  | .int n => .ok (a.at? n)
  | .bool b => .ok ((a.at? b.toNat).map ({ · with uncounted? := some (.truth b) }))
  | .float (.finite x) =>
    if 0 ≤ x.steps ∧ x.steps < a.total * Nat.pow 2 stepBits then
      .ok (some { a with uncounted? := some (.double x) })
    else .ok none
  | .float _ => .ok none
  | d => .error (.datum (.notOrdered "<=" "int" d.kindName))

/-- The step before, if there is one. -/
def previous? (a : Attempt) : Option Attempt :=
  match a.double? with
  | none =>
    if 0 < a.index then some { a with index := a.index - 1, uncounted? := none } else none
  | some x =>
    if 0 < x.steps then some { a with uncounted? := some (.double (x.plus (-1))) } else none

/-- One more step is done. -/
def advance (a : Attempt) : Attempt :=
  match a.double? with
  | none => { a with index := a.index + 1, uncounted? := none }
  | some x => { a with uncounted? := some (.double (x.plus 1)) }

end Attempt

/-- A hint: the number of the step, the idea behind its action and what to do. -/
structure Hint where
  number : Nat
  tip : String
  nudge : String

/-- The hint for the step with a number. -/
def Step.hint (s : Step) (number : Nat) : Except Fault Hint :=
  return ⟨number, s.action.tip, ← s.action.nudge s.operand⟩

/-- The hint for a step, counted from zero. -/
def Lesson.hint (l : Lesson) (index : Nat) : Except Fault Hint :=
  match l.steps[index]? with
  | none => .error (.datum .outOfRange)
  | some step => step.hint (index + 1)

end EquationStudio
