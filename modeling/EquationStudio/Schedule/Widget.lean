import EquationStudio.Schedule.Agenda

/-!
# Widgets as schedulers

A widget of a window can be asked to call something after a while. It names what it is asked for by
the number of requests it has seen.
-/

namespace EquationStudio

/-- What a widget is asked for. -/
inductive WidgetRequest (α : Type) where
  | after (delay : Datum) (call : α)
  | cancel (name : String)

/-- A widget, with what it has been asked for. -/
structure Widget (α : Type) where
  /-- The requests that the widget has seen, the last one first. -/
  requests : List (WidgetRequest α) := []
  /-- The calls that wait, by name, the last one first. -/
  waiting : List (String × α) := []

namespace Widget

variable {α : Type}

/-- The name of a call that is asked for after a number of requests. -/
def nameAfter (requests : Nat) : String := s!"after#{requests + 1}"

/-- Asks for a call. -/
def after (w : Widget α) (delay : Datum) (call : α) : String × Widget α :=
  let name := nameAfter w.requests.length
  (name, ⟨.after delay call :: w.requests, (name, call) :: w.waiting⟩)

/-- Takes a request back. -/
def cancel (w : Widget α) (name : String) : Widget α :=
  ⟨.cancel name :: w.requests, w.waiting.filter (·.1 ≠ name)⟩

/-- Makes a call, if it still waits. -/
def make (w : Widget α) (name : String) : Option α × Widget α :=
  match w.waiting.find? (·.1 = name) with
  | some (_, call) => (some call, { w with waiting := w.waiting.filter (·.1 ≠ name) })
  | none => (none, w)

instance : Scheduler (Widget α) String α where
  schedule w delay call :=
    let (name, w) := w.after delay call
    (name, false, w)
  cancel := cancel

end Widget

end EquationStudio
