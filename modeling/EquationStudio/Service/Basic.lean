import EquationStudio.Diagram.Record
import EquationStudio.Lesson.Catalog
import EquationStudio.Service.Request
import EquationStudio.Service.Session
import EquationStudio.Synthesis.Algebra

/-!
# The service

The service offers the catalog of lessons, sessions with a tutor, and the expression of a submitted
diagram. It answers one call after another; each answer comes with the journal of what was done.
-/

namespace EquationStudio

/-- A service at work. -/
structure Service where
  sessions : Sessions := {}
  supply : Supply := {}

/-- Whether a fault lies in a value that is not allowed, not in one of a kind that was not reckoned
with. -/
def Fault.isOfValue : Fault → Bool
  | .datum (.notNumeral _) | .datum (.tooFewCoordinates _) | .datum .tooManyCoordinates
  | .datum (.notMember ..) | .datum .tooManyDigits | .datum .notEncodable
  | .datum .notDecodable | .datum .undefinedToInteger | .datum (.notPair _) => true
  | .datum (.foreign ofValue _) => ofValue
  | .datum _ | .unavailable _ => false
  | _ => true

/-- The answer to a submission with a fault. One with half a pair of code units in it cannot be
sent. -/
def Response.ofFault : Fault → Response
  | .datum (.missingKey key) => .bad s!"Missing field: {key}"
  | fault =>
    if fault.isOfValue && isEncodable fault.message then .bad fault.message else .failure

/-- The lessons of a difficulty and on a topic, as far as these are asked for. -/
def Catalog.select (difficulty topic : Option String) : Except Fault (List Lesson) := do
  let ls ← match difficulty with
    | some d => do pure (Catalog.ofDifficulty (← Difficulty.ofDatum (.text d)))
    | none => pure Catalog.lessons
  return match topic with
    | some t => ls.filter (·.topic == t)
    | none => ls

/-! ## Submitted diagrams -/

namespace Submission

/-- The submitted diagram as a record. -/
def toRecord (p : Submission) : Datum :=
  .record [("nodes", p.nodes), ("connections", p.connections), ("constraints", p.constraints)]

/-- A list of texts, if all data are. -/
def texts? : List Datum → Option (List String)
  | [] => some []
  | .text s :: ds => (texts? ds).map (s :: ·)
  | _ :: _ => none

/-- What is answered about a diagram whose expression was read. The simplified form of a complete
expression is left out if it has none. An answer with half a pair of code units in it cannot be
sent; only labels and identities can bring one in. -/
def describe (p : Submission) (g : Diagram) (s : Synthesis)
    (A : SymbolicAlgebra := Expr.algebra) : Response :=
  match texts? s.degraded with
  | none => .failure
  | some degraded =>
    let answer (simplified : Datum) : Response :=
      if (s.expression :: degraded).all isEncodable then
        .ok (.record [("expression", .text s.expression), ("complete", .bool s.complete),
          ("degraded_nodes", .texts degraded), ("simplified", simplified)])
      else .failure
    if !s.complete then answer .null
    else
      match g.simplified p.sink A with
      | .ok text => answer (.text text)
      | .error fault => if fault.isOfValue then answer .null else .failure

/-- What is answered about the submitted diagram. Its expression is read once more to simplify it,
which the journal shows. -/
def answer (p : Submission) (supply : Supply) (A : SymbolicAlgebra := Expr.algebra) :
    Response × Journal × Supply :=
  match Diagram.ofRecord supply p.toRecord with
  | (.error fault, supply) => (.ofFault fault, [], supply)
  | (.ok g, supply) =>
    let journal := g.sinkJournal p.sink
    match g.synthesize p.sink with
    | .error fault => (.ofFault fault, journal, supply)
    | .ok s => (p.describe g s A, if s.complete then journal ++ journal else journal, supply)

end Submission

/-! ## Calls -/

namespace Service

/-- The answer where there is no such session. -/
def noSession : Response := .missing "Session not found."

/-- Starts a session with a lesson. -/
def start (s : Service) (lesson : Lesson) : Response × Journal × Service :=
  let (id, supply) := s.supply.draw 32
  let (told, journal, session) := (Session.start id lesson).tell none
  match s.sessions.insert session with
  | some (evicted, sessions) => (.ok told, journal ++ evicted, { sessions, supply })
  | none => (.failure, journal, { s with supply })

/-- Asks something of the tutor of a session, and tells of the session. -/
def ask (s : Service) (id : String) (f : Tutor → Except Fault (Option Hint) × Tutor) :
    Response × Journal × Service :=
  match s.sessions.find? id with
  | none => (noSession, [], s)
  | some session =>
    let (hint, tutor) := f session.tutor
    let session := { session with tutor }
    match hint with
    | .error _ => (.failure, [], { s with sessions := s.sessions.update session })
    | .ok hint =>
      let (told, journal, session) := session.tell hint
      (.ok told, journal, { s with sessions := s.sessions.update session })

/-- Time passes for a tutor. -/
def passTime (ms : Nat) (t : Tutor) : Except Fault (Option Hint) × Tutor :=
  match t.tick (.int ms) with
  | .ok t => (.ok none, t)
  | .error fault => (.error fault, t)

/-- Answers a call. -/
def answer (s : Service) (call : Call) (A : SymbolicAlgebra := Expr.algebra) :
    Response × Journal × Service :=
  match call with
  | .lessons difficulty topic =>
    match Catalog.select difficulty topic with
    | .ok ls => (.ok (.list (ls.map Lesson.summary)), [], s)
    | .error _ =>
      let asked := difficulty.getD ""
      (.bad s!"Unknown difficulty: {asked}", [], s)
  | .lesson id =>
    match Catalog.find? id with
    | some l => (.ok l.toRecord, [], s)
    | none => (.missing "Equation not found.", [], s)
  | .start id =>
    match Catalog.find? (trimBlank id) with
    | some l => s.start l
    | none => (.missing "Equation not found.", [], s)
  | .view id => s.ask id fun t => (.ok none, t)
  | .advance id => s.ask id fun t => (.ok none, t.advance)
  | .hint id => s.ask id Tutor.requestHint
  | .reset id => s.ask id fun t => (.ok none, t.reset)
  | .tick id ms => s.ask id (passTime ms)
  | .close id =>
    match s.sessions.find? id with
    | none => (noSession, [], s)
    | some _ =>
      (.ok (.record [("closed", .text id)]), [], { s with sessions := s.sessions.erase id })
  | .synthesize submitted =>
    let (response, journal, supply) := submitted.answer s.supply A
    (response, journal, { s with supply })

/-- Answers a request. -/
def handle (s : Service) (r : Request) (A : SymbolicAlgebra := Expr.algebra) :
    Response × Journal × Service :=
  match r.call with
  | .ok call => s.answer call A
  | .error response => (response, [], s)

/-- Closes all sessions. -/
def closeAll (s : Service) : Service := { s with sessions := s.sessions.clear }

end Service

end EquationStudio
