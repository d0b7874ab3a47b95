import EquationStudio.Notice
import EquationStudio.Schedule.Routine
import EquationStudio.Tutor.Attempt

/-!
# The tutor

The tutor plays one lesson at a time for one student. It is idle until a lesson is loaded, then in
progress until the last step is done, and completed from then on; loading starts afresh, and a reset
makes it idle again. The phase is kept beside the lesson and the attempt, and each operation brings
it up to date. While a lesson is in progress the tutor may play it by itself. What it makes known is
collected in `Tutor.events`.
-/

namespace EquationStudio

/-- How far the tutor is. -/
inductive Phase where
  | idle
  | inProgress
  | completed
  deriving DecidableEq

/-- The name of a phase. -/
def Phase.name : Phase → String
  | idle => "idle"
  | inProgress => "in_progress"
  | completed => "completed"

/-- A tutor with its routines and the agenda on which they run. -/
structure Tutor where
  /-- The lesson that was loaded last. A reset leaves it. -/
  lesson? : Option Lesson := none
  /-- The attempt at the lesson, until a reset. -/
  attempt? : Option Attempt := none
  phase : Phase := .idle
  /-- The routine that counts the time. -/
  timer : Option (Routine Nat) := none
  /-- The routine that advances by itself. -/
  autoPlay : Option (Routine Nat) := none
  /-- How many routines there have been. -/
  routines : Nat := 0
  agenda : Agenda Callback := {}
  /-- What has been made known and not yet collected. -/
  events : List Event := []

namespace Tutor

/-- The attempt, while it is in progress. -/
def running? (t : Tutor) : Option Attempt :=
  if t.phase = .inProgress then t.attempt? else none

/-- The step to be done next, while a lesson is in progress. -/
def currentStep (t : Tutor) : Except Fault (Option Step) :=
  match t.running?, t.lesson? with
  | some a, some l =>
    if a.double?.isSome then .error (.datum (.notIndex "float")) else .ok l.steps[a.index]?
  | _, _ => .ok none

/-- The step to be done next, if one is shown. -/
def currentStep? (t : Tutor) : Option Step := t.currentStep.toOption.join

/-- Whether the lesson plays by itself. -/
def isPlaying (t : Tutor) : Bool :=
  match t.autoPlay with
  | some routine => routine.isActive
  | none => false

/-! ## Making known -/

/-- Sends a notice. -/
def notify (t : Tutor) (message : String) (level : Level) : Tutor :=
  { t with events := t.events ++ [.notice ⟨message, level⟩] }

/-- Enters something in the journal. -/
def log (t : Tutor) (message : String) : Tutor :=
  { t with events := t.events ++ [.entry ⟨"tutor.sequence", .info, message⟩] }

/-- The tutor with everything collected that it made known. -/
def collect (t : Tutor) : List Event × Tutor := (t.events, { t with events := [] })

/-! ## Routines -/

/-- Stops the routine that counts the time. -/
def stopTimer (t : Tutor) : Tutor :=
  match t.timer with
  | none => t
  | some routine => { t with timer := none, agenda := (routine.stop t.agenda).2 }

/-- Stops playing. -/
def stopAutoPlay (t : Tutor) : Tutor :=
  match t.autoPlay with
  | none => t
  | some routine =>
    let t := { t with autoPlay := none, agenda := (routine.stop t.agenda).2 }
    t.notify "Auto-play stopped" .info

/-! ## Lessons -/

/-- Starts a lesson afresh. -/
def load (t : Tutor) (lesson : Lesson) : Tutor :=
  let t := { t.stopAutoPlay with
    lesson? := some lesson, attempt? := some { total := lesson.length }, phase := .inProgress }
  let t := t.log s!"Loaded sequence {lesson.id} ({lesson.length} steps)"
  t.notify s!"Loaded sequence: {lesson.name}" .success

/-- Starts the lesson of a record. -/
def loadRecord (t : Tutor) (d : Datum) : Except Fault Tutor :=
  match d with
  | .record fields => do return t.load (← Lesson.ofRecord (.record fields))
  | _ => .error (.sequence .notEquation)

/-- The attempt at the lesson is completed. -/
def complete (t : Tutor) (a : Attempt) : Tutor :=
  let t := { t with phase := .completed }.stopAutoPlay
  match t.lesson? with
  | none => t
  | some l =>
    let t := t.log s!"Completed sequence {l.id}: {a.hints} hints, {a.elapsed} ms"
    t.notify s!"Congratulations! You completed \"{l.name}\"" .success

/-- One more step is done. The last one completes the lesson. -/
def advance (t : Tutor) : Tutor :=
  match t.running? with
  | none => t
  | some a =>
    let t := { t with attempt? := some a.advance }
    if a.advance.isCompleted then t.complete a.advance else t

/-- Goes back one step. -/
def previous (t : Tutor) : Bool × Tutor :=
  match t.running? with
  | none => (false, t.notify "No sequence in progress" .error)
  | some a =>
    match a.previous? with
    | none => (false, t.notify "Already at the first step" .warning)
    | some a => (true, { t with attempt? := some a })

/-- Goes to a step, if there is such a step. -/
def arrive (t : Tutor) : Option Attempt → Bool × Tutor
  | none => (false, t.notify "Invalid step index" .error)
  | some a => (true, { t with attempt? := some a })

/-- Goes to a step, counted from zero. -/
def goTo (t : Tutor) (index : Int) : Bool × Tutor :=
  match t.running? with
  | none => (false, t.notify "No sequence in progress" .error)
  | some a => t.arrive (a.at? index)

/-- Goes to a step given by a datum, which is looked at only while a lesson is in progress. -/
def goToDatum (t : Tutor) (index : Datum) : Except Fault (Bool × Tutor) :=
  match t.running? with
  | none => .ok (false, t.notify "No sequence in progress" .error)
  | some a => do return t.arrive (← a.goTo? index)

/-- A hint for the step that the student looks at. It is counted before it is put into words. -/
def requestHint (t : Tutor) : Except Fault (Option Hint) × Tutor :=
  if t.phase = .idle then (.ok none, t)
  else
    match t.attempt?, t.lesson? with
    | some a, some l =>
      let t := { t with attempt? := some a.countHint }
      match a.lookedAt.bind l.hint with
      | .ok hint => (.ok (some hint), t.notify s!"Hint: {hint.tip}" .info)
      | .error fault => (.error fault, t)
    | _, _ => (.error (.datum (.noMethod "NoneType" "hints_used")), t)

/-- Puts the lesson aside. -/
def reset (t : Tutor) : Tutor :=
  { t.stopAutoPlay with attempt? := none, phase := .idle }.notify "Sequence reset" .info

/-! ## Time -/

/-- A stretch of time in whole milliseconds. -/
def wholeMilliseconds : Datum.Quantity → Except Fault Nat
  | .whole n => .ok n.toNat
  | .real (.finite x) => .ok (x.steps / Nat.pow 2 stepBits).toNat
  | .real .nan => .error (.datum .undefinedToInteger)
  | .real (.infinite _) => .error (.datum .infinityToInteger)

/-- Whether an amount is below zero. -/
def isBelowZero : Datum.Quantity → Bool
  | .whole n => n < 0
  | .real (.finite x) => x.steps < 0
  | .real (.infinite negative) => negative
  | .real .nan => false

/-- Time passes. It counts only while a lesson is in progress. -/
def tick (t : Tutor) (ms : Datum) : Except Fault Tutor :=
  match ms.quantity? with
  | none => .error (.datum (.notOrdered "<" ms.kindName "int"))
  | some q =>
    if isBelowZero q then .error (.refusal .negativeTime)
    else
      match t.running? with
      | none => .ok t
      | some a => do return { t with attempt? := some (a.spend (← wholeMilliseconds q)) }

end Tutor

end EquationStudio
