import EquationStudio.Schedule.Agenda

/-!
# Pools of timers

A pool counts the timers that were started in it, and knows which of them still run. A timer runs
until it fires or is cancelled, and makes its call when it fires.
-/

namespace EquationStudio

/-- The timers of a pool, each with the call that it is to make. -/
structure TimerPool (α : Type) where
  started : Nat := 0
  /-- The timers that run, by number, the last one first. -/
  running : List (Nat × α) := []
  fired : Nat := 0

namespace TimerPool

variable {α : Type}

/-- Starts a timer. -/
def start (p : TimerPool α) (call : α) : Nat × TimerPool α :=
  (p.started, { p with started := p.started + 1, running := (p.started, call) :: p.running })

/-- Cancels a timer, if it still runs. -/
def cancel (p : TimerPool α) (timer : Nat) : TimerPool α :=
  { p with running := p.running.filter (·.1 ≠ timer) }

/-- Cancels all timers. -/
def cancelAll (p : TimerPool α) : TimerPool α := { p with running := [] }

/-- A timer fires, if it still runs. The answer holds the call that it makes. -/
def fire (p : TimerPool α) (timer : Nat) : Option α × TimerPool α :=
  match p.running.find? (·.1 = timer) with
  | some (_, call) => (some call, { p.cancel timer with fired := p.fired + 1 })
  | none => (none, p)

/-- How many timers run. -/
def pending (p : TimerPool α) : Nat := p.running.length

instance : Scheduler (TimerPool α) Nat α where
  schedule p _ call :=
    let (timer, p) := p.start call
    (timer, false, p)
  cancel := cancel

end TimerPool

end EquationStudio
