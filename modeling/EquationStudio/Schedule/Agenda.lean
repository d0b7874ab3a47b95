import EquationStudio.Datum.Basic

/-!
# Schedulers and agendas

A scheduler takes calls to be made after a delay and hands out handles, by which a call can be
cancelled. An agenda is the scheduler of the studio: calls wait in the order in which they were
scheduled, and it remembers all it ever took, since a call that has been cancelled may still be made
late.
-/

namespace EquationStudio

/-- What can be asked for calls of type `α` and hands out handles of type `ι`. -/
class Scheduler (σ : Type) (ι α : outParam Type) where
  /-- Takes a call to be made after a delay. The answer holds the handle, and whether the caller was
  asked to stop before the handle was handed out. -/
  schedule : σ → Datum → α → ι × Bool × σ
  /-- Drops the call with a handle, if it still waits. -/
  cancel : σ → ι → σ

/-- A call to be made after a delay. -/
structure Appointment (α : Type) where
  handle : Nat
  delay : Datum
  call : α

/-- Calls that wait, and all calls ever taken. -/
structure Agenda (α : Type) where
  /-- The calls that wait, the first one first. -/
  waiting : List (Appointment α) := []
  /-- All calls ever taken, the last one first. -/
  taken : List (Appointment α) := []
  /-- Whether whoever schedules next is asked to stop in the middle of it. -/
  interrupts : Bool := false

namespace Agenda

variable {α : Type}

/-- Takes a call. Handles are numbered from one. -/
def schedule (a : Agenda α) (delay : Datum) (call : α) : Nat × Bool × Agenda α :=
  let handle := a.taken.length + 1
  let appointment := ⟨handle, delay, call⟩
  (handle, a.interrupts, ⟨a.waiting ++ [appointment], appointment :: a.taken, false⟩)

/-- Drops the call with a handle. -/
def cancel (a : Agenda α) (handle : Nat) : Agenda α :=
  { a with waiting := a.waiting.filter (·.handle ≠ handle) }

instance : Scheduler (Agenda α) Nat α := ⟨schedule, cancel⟩

/-- The first call that waits, taken off the agenda. -/
def next? (a : Agenda α) : Option (Appointment α × Agenda α) :=
  match a.waiting with
  | [] => none
  | p :: rest => some (p, { a with waiting := rest })

/-- The call once taken under a handle, whatever became of it. -/
def taken? (a : Agenda α) (handle : Nat) : Option (Appointment α) :=
  a.taken.find? (·.handle = handle)

end Agenda

end EquationStudio
