import EquationStudio.Tutor.Engine

/-!
# Playing by the clock

Two repeating routines drive a tutor: the timer lets time pass, and the auto-play advances the
lesson. Both run on the tutor's agenda. A call from the agenda reaches the routine that scheduled
it, if the tutor still has it.
-/

namespace EquationStudio.Tutor

/-- How long the timer waits, unless told otherwise. -/
def timerInterval : Datum := .int 1000

/-- How long auto-play waits, unless told otherwise. -/
def autoPlayInterval : Datum := .int 2000

/-- Starts to count the time. A timer that runs already is stopped first. -/
def startTimer (t : Tutor) (interval : Datum) : Except Fault Unit × Tutor :=
  let t := t.stopTimer
  match Routine.create t.routines interval with
  | .error fault => (.error fault, t)
  | .ok routine =>
    let (routine, agenda) := routine.start t.agenda
    (.ok (), { t with timer := some routine, routines := t.routines + 1, agenda })

/-- Starts to play a lesson that is in progress and does not play already. -/
def startAutoPlay (t : Tutor) (interval : Datum) : Except Fault (Bool × Tutor) :=
  if t.running?.isNone || t.isPlaying then .ok (false, t)
  else do
    let routine ← Routine.create t.routines interval
    let (routine, agenda) := routine.start t.agenda
    let t := { t with autoPlay := some routine, routines := t.routines + 1, agenda }
    return (true, t.notify "Auto-play started" .info)

/-- Stops everything and drops the lesson. -/
def destroy (t : Tutor) : Tutor :=
  { t.stopTimer.stopAutoPlay with lesson? := none, attempt? := none, phase := .idle }

/-- A call to the timer. -/
def fireTimer (t : Tutor) (routine : Routine Nat) (generation : Nat) : Except Fault Unit × Tutor :=
  let (acts, routine, agenda) := routine.fire t.agenda generation
  let t := { t with timer := some routine, agenda }
  if acts then
    match t.tick routine.interval with
    | .ok t => (.ok (), t)
    | .error fault => (.error fault, t)
  else (.ok (), t)

/-- A call to the auto-play. -/
def fireAutoPlay (t : Tutor) (routine : Routine Nat) (generation : Nat) : Tutor :=
  let (acts, routine, agenda) := routine.fire t.agenda generation
  let t := { t with autoPlay := some routine, agenda }
  if acts then t.advance else t

/-- A call from the agenda. -/
def fire (t : Tutor) (c : Callback) : Except Fault Unit × Tutor :=
  match t.timer.filter (·.serial = c.routine), t.autoPlay.filter (·.serial = c.routine) with
  | some routine, _ => t.fireTimer routine c.generation
  | none, some routine => (.ok (), t.fireAutoPlay routine c.generation)
  | none, none => (.ok (), t)

/-- Makes the first call that waits; the answer is its handle. -/
def runNext (t : Tutor) : Except Fault (Option Nat) × Tutor :=
  match t.agenda.next? with
  | none => (.ok none, t)
  | some (p, agenda) =>
    let (done, t) := { t with agenda }.fire p.call
    (done.map fun _ => some p.handle, t)

/-- Makes a call that was once scheduled, whatever became of it, and leaves those that wait. -/
def runLate (t : Tutor) (handle : Nat) : Except Fault Unit × Tutor :=
  match t.agenda.taken? handle with
  | none => (.error (.datum (.missingKey (toString handle))), t)
  | some p => t.fire p.call

end EquationStudio.Tutor
