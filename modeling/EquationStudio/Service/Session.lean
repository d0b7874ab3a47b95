import EquationStudio.Supply
import EquationStudio.Tutor.Report

/-!
# Sessions

Each student has a session of their own, which is a tutor under an identifier. Only so many sessions
are open at a time: a further one takes the place of the oldest. What a session's tutor makes known
is told with the next answer of that session, and only there.
-/

namespace EquationStudio

/-- A student's tutor. -/
structure Session where
  id : String
  tutor : Tutor

/-- The open sessions, the oldest first. -/
structure Sessions where
  /-- How many sessions may be open. -/
  capacity : Nat := 500
  opened : List Session := []

namespace Session

/-- The session with a lesson just loaded. -/
def start (id : String) (lesson : Lesson) : Session := ⟨id, Tutor.load {} lesson⟩

/-- A step as an answer shows it, with the operand also where there is none. -/
def shownStep (s : Step) : Datum :=
  .record [("step", .int s.number), ("equation", .text s.equation),
    ("action", .text s.action.name), ("explanation", .text s.explanation), ("value", s.operand)]

/-- A notice as an answer shows it. -/
def shownNotice (n : Notice) : Datum :=
  .record [("message", .text n.message), ("level", .text n.level.name)]

/-- What an answer tells of a session, with a hint if there is one, and the session after all it
made known has been told. -/
def tell (s : Session) (hint : Option Hint) : Datum × Journal × Session :=
  let (events, tutor) := s.tutor.collect
  let told := Notifier.recording.handle events
  (.record [("session_id", .text s.id), ("state", .text tutor.phase.name),
    ("stats", tutor.stats?.getD .null),
    ("current_step", (tutor.currentStep?.map shownStep).getD .null),
    ("hint", (hint.map Hint.toRecord).getD .null),
    ("messages", .list (told.kept.map shownNotice))], told.journal, { s with tutor })

end Session

namespace Sessions

/-- How many sessions are open. -/
def size (ss : Sessions) : Nat := ss.opened.length

/-- The open session with an identifier. -/
def find? (ss : Sessions) (id : String) : Option Session := ss.opened.find? (·.id == id)

/-- The journal entry for a session that gave way to another. -/
def evicted (s : Session) : Entry :=
  let id := s.id
  ⟨"backend.app.sessions", .info, s!"Evicted session {id}"⟩

/-- Opens a session, in the place of the oldest if no further one may be open. Where none may be
open at all there is no place to give. -/
def insert (ss : Sessions) (s : Session) : Option (Journal × Sessions) :=
  if ss.size < ss.capacity then some ([], { ss with opened := ss.opened ++ [s] })
  else
    match ss.opened with
    | [] => none
    | oldest :: rest => some ([evicted oldest], { ss with opened := rest ++ [s] })

/-- Exchanges the state of an open session. -/
def update (ss : Sessions) (s : Session) : Sessions :=
  { ss with opened := ss.opened.map fun t => if t.id == s.id then s else t }

/-- Closes a session. -/
def erase (ss : Sessions) (id : String) : Sessions :=
  { ss with opened := ss.opened.filter (·.id != id) }

/-- Closes all sessions. -/
def clear (ss : Sessions) : Sessions := { ss with opened := [] }

end Sessions

end EquationStudio
