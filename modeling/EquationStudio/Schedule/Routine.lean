import EquationStudio.Schedule.Agenda
import EquationStudio.Fault

/-!
# Repeating routines

A routine that is started schedules a call, and each time it is called it schedules the next one,
until it is stopped. Calls carry the generation of the routine in which they were scheduled and
stopping a routine begins a new generation, so a call that comes late, after a stop, does nothing.

The scheduler may ask a routine to stop while it is taking the routine's call. A routine that is
firing then cancels the call it just scheduled; a routine that is being started keeps it.
-/

namespace EquationStudio

/-- What a scheduler calls: a routine, in one of its generations. -/
structure Callback where
  routine : Nat
  generation : Nat
  deriving DecidableEq

/-- A routine that repeats at an interval. -/
structure Routine (ι : Type) where
  serial : Nat
  interval : Datum
  /-- The handle of the next call, while the routine is active. -/
  handle : Option ι := none
  generation : Nat := 0

namespace Routine

variable {σ ι : Type}

/-- A routine at rest. Its interval must be a positive number. -/
def create (serial : Nat) (interval : Datum) : Except Fault (Routine ι) :=
  let routine := { serial, interval }
  match interval.quantity? with
  | some (.whole n) => if n ≤ 0 then .error (.refusal .intervalNotPositive) else .ok routine
  | some (.real (.finite x)) =>
    if x.steps ≤ 0 then .error (.refusal .intervalNotPositive) else .ok routine
  | some (.real (.infinite true)) => .error (.refusal .intervalNotPositive)
  | some (.real _) => .ok routine
  | none => .error (.datum (.notOrdered "<=" interval.kindName "int"))

/-- Whether a routine has a call scheduled. -/
def isActive (t : Routine ι) : Bool := t.handle.isSome

variable [Scheduler σ ι Callback]

/-- Stops a routine: a new generation begins, and the next call is cancelled. -/
def stop (t : Routine ι) (s : σ) : Routine ι × σ :=
  let s := match t.handle with
    | some handle => Scheduler.cancel s handle
    | none => s
  ({ t with handle := none, generation := t.generation + 1 }, s)

/-- Schedules the next call. -/
def arm (t : Routine ι) (s : σ) (generation : Nat) : Routine ι × σ :=
  let (handle, interrupted, s) := Scheduler.schedule s t.interval ⟨t.serial, generation⟩
  let (t, s) := if interrupted then t.stop s else (t, s)
  ({ t with handle := some handle }, s)

/-- Starts a routine, unless it is active. -/
def start (t : Routine ι) (s : σ) : Routine ι × σ :=
  if t.isActive then (t, s) else t.arm s t.generation

/-- A call to a routine, in one of its generations. The answer says whether the routine acts on
it. -/
def fire (t : Routine ι) (s : σ) (generation : Nat) : Bool × Routine ι × σ :=
  if generation ≠ t.generation ∨ !t.isActive then (false, t, s)
  else
    let (t, s) := t.arm s generation
    if generation = t.generation then (true, t, s)
    else
      let s := match t.handle with
        | some handle => Scheduler.cancel s handle
        | none => s
      (false, { t with handle := none }, s)

end Routine

end EquationStudio
