import EquationStudio.Archive.Basic
import EquationStudio.Diagram.Record
import EquationStudio.Notice
import EquationStudio.Synthesis.Text

/-!
# The workspace

A workspace is a diagram under edit with a place to save it to. Saving and opening are best effort:
where the storage is unavailable the user is told so and the request has no result. Opening replaces
the diagram only if the saved one could be rebuilt as a whole. What the workspace makes known is
collected in `Workspace.events`. A call on the storage may meet an obstacle (`Obstacle`).
-/

namespace EquationStudio

/-- What a workspace saves to. -/
inductive Storage where
  | none
  /-- A storage that is never available, and why. -/
  | broken (reason : String)
  | archive (a : Archive)

/-- The name of what has not been given one. -/
def untitled : String := "Untitled"

/-- A diagram under edit. -/
structure Workspace where
  storage : Storage
  diagram : Diagram := {}
  /-- The identifier under which the diagram is saved, null if it is not. -/
  current : Datum := .null
  name : Datum := .text untitled
  supply : Supply := {}
  /-- What has been made known and not yet collected. -/
  events : List Event := []

/-- Whether a fault in rebuilding a diagram tells that its record is damaged. The others tell that
the record holds a value of a kind that was not reckoned with. -/
def Fault.isDamage : Fault → Bool
  | .datum (.noMethod ..) | .datum .tooLargeForDouble | .datum .infinityToInteger => false
  | .datum .tooDeep | .unavailable _ => false
  | _ => true

namespace Workspace

/-! ## Making known -/

/-- Sends a notice. -/
def notify (w : Workspace) (message : String) (level : Level) : Workspace :=
  { w with events := w.events ++ [.notice ⟨message, level⟩] }

/-- Adds entries to the journal. -/
def record (w : Workspace) (journal : Journal) : Workspace :=
  { w with events := w.events ++ journal.map .entry }

/-- Enters a warning in the journal. -/
def warn (w : Workspace) (message : String) : Workspace :=
  w.record [⟨"builder.workspace", .warning, message⟩]

/-- The workspace with everything collected that it made known. -/
def collect (w : Workspace) : List Event × Workspace := (w.events, { w with events := [] })

/-! ## The storage -/

/-- Makes known that the storage did not do something. -/
def unavailable (w : Workspace) (action reason : String) : Workspace :=
  (w.warn s!"Could not {action}: {reason}").notify
    s!"Could not {action}. Storage is unavailable." .error

/-- The answer of the storage to a request that may draw an identifier. There is none if there is no
storage, or if it is unavailable; in this case it is made known what it did not do. -/
def request {α : Type} (w : Workspace) (action : String)
    (f : Archive → Supply → Archive.Outcome α × Supply) :
    Except Fault (Option α) × Workspace :=
  match w.storage with
  | .none => (.ok none, w)
  | .broken reason => (.ok none, w.unavailable action reason)
  | .archive a =>
    let (outcome, supply) := f a w.supply
    let w := { w with storage := .archive outcome.archive, supply }.record outcome.journal
    match outcome.answer with
    | .ok answer => (.ok (some answer), w)
    | .error (.unavailable reason) => (.ok none, w.unavailable action reason)
    | .error fault => (.error fault, w)

/-- The answer of the storage to a request that draws no identifier, and `other` if there is
none. -/
def inquire {α : Type} (w : Workspace) (action : String) (other : α)
    (f : Archive → Archive.Outcome α) : Except Fault α × Workspace :=
  let (answer, w) := w.request action fun a supply => (f a, supply)
  (answer.map (·.getD other), w)

/-! ## Editing -/

/-- A new diagram without a name. -/
def renew (w : Workspace) : Workspace :=
  { w with diagram := {}, current := .null, name := .text untitled }

/-- The expression under which the diagram is saved: none if it is circular. -/
def savedExpression (w : Workspace) : Except Fault (String × Workspace) :=
  let w := w.record (w.diagram.sinkJournal .null)
  match w.diagram.synthesize .null with
  | .ok s => .ok (s.expression, w)
  | .error (.cycle node path) =>
    let name := Archive.spell w.name
    let reason := (Fault.cycle node path).message
    .ok ("", w.warn s!"Saving {name} without an expression: {reason}")
  | .error fault => .error fault

/-- The record under which the diagram is saved. -/
def toRecord (w : Workspace) (expression : String) (constraints : Datum) : Datum :=
  let fields := [("id", w.current), ("name", w.name), ("expression", .text expression),
    ("graph", w.diagram.toRecord)]
  .record (if constraints.isTruthy then fields ++ [("constraints", constraints)] else fields)

/-- Saves the diagram, under a new name if one is given, with the given constraints or its own. The
answer is its identifier, null if it was not saved. -/
def save (w : Workspace) (now : Moment) (name constraints : Datum)
    (obstacle : Option Obstacle := none) : Except Fault Datum × Workspace :=
  match w.storage with
  | .none => (.ok .null, w)
  | _ =>
    let w := if name.isTruthy then { w with name } else w
    match w.savedExpression with
    | .error fault => (.error fault, w)
    | .ok (expression, w) =>
      let constraints :=
        if constraints.isGiven then constraints else .list w.diagram.constraints.toRecords
      let record := w.toRecord expression constraints
      match w.request "save the equation" fun a supply => a.save supply now record obstacle with
      | (.error fault, w) => (.error fault, w)
      | (.ok none, w) => (.ok .null, w)
      | (.ok (some id), w) =>
        (.ok id, { w with current := id }.notify s!"Saved \"{Archive.spell w.name}\"" .success)

/-- Opens a saved record: its diagram, its identifier and its name. -/
def adopt (w : Workspace) (record : Datum) (g : Diagram) : Except Fault Datum × Workspace :=
  let w := { w with diagram := g }
  match record.field "id" with
  | .error fault => (.error fault, w)
  | .ok id =>
    match record.fieldOr "name" (.text untitled) with
    | .error fault => (.error fault, { w with current := id })
    | .ok name =>
      let w := { w with current := id, name }
      (.ok record, w.notify s!"Loaded \"{Archive.spell w.name}\"" .success)

/-- Rebuilds the diagram of a saved record and opens it. -/
def rebuild (w : Workspace) (id record : Datum) : Except Fault Datum × Workspace :=
  match record.fieldOr "graph" (.record []) with
  | .error fault => (.error fault, w)
  | .ok data =>
    let (rebuilt, supply) := Diagram.ofRecord w.supply data
    let w := { w with supply }
    match rebuilt with
    | .ok g => w.adopt record g
    | .error fault =>
      if fault.isDamage then
        let name := Archive.spell id
        let reason := fault.message
        (.ok .null, (w.warn s!"Saved equation {name} is damaged: {reason}").notify
          "Could not open the equation. The saved data is damaged." .error)
      else (.error fault, w)

/-- Replaces the diagram by a saved one and answers its record, null if it was not opened. -/
def reopen (w : Workspace) (id : Datum) (obstacle : Option Obstacle := none) :
    Except Fault Datum × Workspace :=
  match w.request "load the equation" fun a supply => (a.load id obstacle, supply) with
  | (.error fault, w) => (.error fault, w)
  | (.ok none, w) => (.ok .null, w)
  | (.ok (some none), w) => (.ok .null, w.notify "Equation not found" .error)
  | (.ok (some (some record)), w) => w.rebuild id record

/-- What a listing of the saved diagrams shows. -/
def listing (w : Workspace) (obstacle : Option Obstacle := none) :
    Except Fault (List Datum) × Workspace :=
  w.inquire "list saved equations" [] (·.list obstacle)

/-- Deletes a saved diagram, and answers whether there was one. The diagram under edit stays. -/
def discard (w : Workspace) (id : Datum) (obstacle : Option Obstacle := none) :
    Except Fault Bool × Workspace :=
  match w.inquire "delete the equation" false (·.remove id obstacle) with
  | (.ok true, w) =>
    let w := if id.equal w.current then { w with current := .null } else w
    (.ok true, w.notify "Equation deleted" .info)
  | done => done

/-- The constraints saved with a diagram, with the current one if no identifier is given. -/
def constraintsOf (w : Workspace) (id : Datum) (obstacle : Option Obstacle := none) :
    Except Fault (List Datum) × Workspace :=
  let id := if id.isTruthy then id else w.current
  if id.isGiven then w.inquire "read constraints" [] (·.constraintsOf id obstacle) else (.ok [], w)

end Workspace

end EquationStudio
