import EquationStudio.Datum.Mapping

/-!
# The archive's database

The database keeps settings, the saved equations with the newest first, and a table with the
constraints of each equation that has any. It is read from a document that may have been written by
anyone, so each part may turn out to be of any kind; an operation that cannot work with what it
finds is refused. Equations beyond a fixed number fall off the end, and the table of constraints
keeps only what belongs to an equation that is there.
-/

namespace EquationStudio

/-- How many equations are kept. -/
def archiveCapacity : Nat := 200

/-- The settings of those who never chose any. -/
def defaultSettings : Fields :=
  [("tick_interval_ms", .int 1000), ("auto_play_ms", .int 2000), ("log_level", .text "INFO")]

/-- The content of the archive, whose parts are fields of a document. -/
structure Database where
  fields : Fields

/-- The identifier that a record has, null if it has none. -/
def Datum.recordId (d : Datum) : Except Fault Datum := d.fieldOr "id" .null

namespace Database

/-- A database in which nothing was saved. -/
def empty : Database :=
  ⟨[("settings", .record defaultSettings), ("equations", .list []), ("constraints", .record [])]⟩

/-- The fields with a part added if it is not there. -/
def withPart (fields : Fields) (part : String × Datum) : Fields :=
  if (Fields.get? fields part.1).isSome then fields else fields ++ [part]

/-- The database that a document holds. Parts that are missing are those of the empty one. -/
def ofDatum : Datum → Database
  | .record fields => ⟨empty.fields.foldl withPart fields⟩
  | _ => empty

/-- The settings, of whatever kind. -/
def settings (db : Database) : Datum := Fields.get db.fields "settings"

/-- The saved equations, of whatever kind. -/
def equations (db : Database) : Datum := Fields.get db.fields "equations"

/-- The table of constraints, of whatever kind. -/
def constraints (db : Database) : Datum := Fields.get db.fields "constraints"

/-- The database with one part exchanged. -/
def set (db : Database) (part : String) (value : Datum) : Database :=
  ⟨Fields.set db.fields part value⟩

/-! ## Equations -/

/-- The first record with an identifier. -/
def findRecord (id : Datum) : List Datum → Except Fault (Option Datum)
  | [] => .ok none
  | d :: ds => do if (← d.recordId).equal id then return some d else findRecord id ds

/-- The records with other identifiers. -/
def otherRecords (id : Datum) : List Datum → Except Fault (List Datum)
  | [] => .ok []
  | d :: ds => do
    let here ← d.recordId
    let others ← otherRecords id ds
    return if here.equal id then others else d :: others

/-- The saved record with an identifier. -/
def find? (db : Database) (id : Datum) : Except Fault (Option Datum) := do
  findRecord id (← db.equations.members)

/-- What a listing shows of a record. -/
def summary (d : Datum) : Except Fault Datum := do
  let id ← d.recordId
  let name ← d.fieldOr "name" (.text "")
  let expression ← d.fieldOr "expression" (.text "")
  let timestamp ← d.fieldOr "timestamp" (.text "")
  let nodes ← (← d.fieldOr "graph" (.record [])).fieldOr "nodes" (.list [])
  return .record [("id", id), ("name", name), ("expression", expression),
    ("timestamp", timestamp), ("node_count", .int (← nodes.size))]

/-- What a listing shows of all records, newest first. -/
def summaries (db : Database) : Except Fault (List Datum) := do
  (← db.equations.members).mapM summary

/-! ## The table of constraints -/

/-- The table with the constraints of an equation. -/
def enter (table id : Datum) (items : List Datum) : Except Fault Datum :=
  match table with
  | .record fields => do
    let _ ← id.key
    return .record (Fields.set fields id.keyText (.list items))
  | .list entries =>
    match id with
    | .int n =>
      if -entries.length ≤ n ∧ n < entries.length then .ok (.list entries)
      else .error (.datum .outOfRange)
    | .bool b =>
      if b.toNat < entries.length then .ok (.list entries) else .error (.datum .outOfRange)
    | d => .error (.datum (.notIndex d.kindName))
  | d => .error (.datum (.noFields d.kindName))

/-- The table without the constraints of an equation. An empty table is not searched. -/
def withdraw (table id : Datum) : Except Fault Datum :=
  match table with
  | .record [] => .ok (.record [])
  | .record fields =>
    match id with
    | .text s => .ok (.record (Fields.erase fields s))
    | d => do
      let _ ← d.key
      return .record fields
  | .list _ => .error (.datum (.notIndex id.kindName))
  | d => .error (.datum (.noMethod d.kindName "pop"))

/-- The table with nothing but the entries of the equations that are there and the one of the given
name. -/
def retain (table : Datum) (ids : List Key) (entered : Option String) : Except Fault Datum :=
  match table with
  | .record fields =>
    .ok (.record (fields.filter fun f => ids.contains (.text f.1) || entered == some f.1))
  | d => .error (.datum (.noMethod d.kindName "items"))

/-- The constraints of an equation. -/
def constraintsOf (db : Database) (id : Datum) : Except Fault (List Datum) :=
  match db.constraints with
  | .record fields => do
    let _ ← id.key
    match id with
    | .text s => ((Fields.get? fields s).getD (.list [])).members
    | _ => return []
  | d => .error (.datum (.noMethod d.kindName "get"))

/-! ## Changes -/

/-- The database with a record saved under an identifier, in front of all others. -/
def save (db : Database) (record : Fields) (id : Datum) : Except Fault Database := do
  let others ← otherRecords id (← db.equations.members)
  let records := (.record record :: others).take archiveCapacity
  let items := Fields.get record "constraints"
  let (table, entered) ←
    if items.isTruthy then do
      let items ← items.members
      pure (← enter db.constraints id items, some id.keyText)
    else do pure (← withdraw db.constraints id, none)
  let ids ← records.mapM fun r => do (← r.recordId).key
  let table ← retain table ids entered
  return (db.set "equations" (.list records)).set "constraints" table

/-- Whether there was a record with an identifier, and the database without it. -/
def remove (db : Database) (id : Datum) : Except Fault (Bool × Database) := do
  let before ← db.equations.size
  let others ← otherRecords id (← db.equations.members)
  let table ← withdraw db.constraints id
  return (others.length != before,
    (db.set "equations" (.list others)).set "constraints" table)

/-- The settings that are in force: those chosen, and the default ones for the others. -/
def currentSettings (db : Database) : Except Fault Fields := do
  return (← db.settings.toFields).foldl (fun fs f => Fields.set fs f.1 f.2) defaultSettings

end Database

end EquationStudio
