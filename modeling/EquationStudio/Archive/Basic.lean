import EquationStudio.Archive.Database
import EquationStudio.Document.Reading
import EquationStudio.Journal
import EquationStudio.Supply

/-!
# The archive

Equations and settings outlast a session in a file. Every request reads the whole file, and every
change writes it anew. A file that is no document counts as if it were not there. A file that cannot
be opened makes the archive unavailable. To open a file for writing empties it, so a change whose
document is not written to its end leaves behind the part that was written: a datum may be none that
can be written, or writing may be stopped from outside (`Obstacle`).
-/

namespace EquationStudio

/-- What a file holds. -/
inductive FileContent where
  /-- A document that was written to its end. -/
  | document (d : Datum)
  /-- Any other text. -/
  | text (s : String)
  /-- Bytes that spell no text. -/
  | undecodable

/-- The document that a file holds. -/
def FileContent.read : FileContent → Except DocumentFault Datum
  | document d => .ok d
  | text s => Datum.ofDocument (some writtenDigits) s
  | undecodable => .error .undecodable

/-- What a file with the given bytes holds. -/
def FileContent.ofBytes (bytes : ByteArray) : FileContent :=
  match String.fromUTF8? bytes with
  | some s => .text s
  | none => .undecodable

/-- What there is at the place of the archive's file. -/
inductive Place where
  | absent
  /-- There is no file and none can be made. -/
  | blocked
  /-- There is something that cannot be opened as a file. -/
  | directory
  | file (content : FileContent)

/-- What may come in the way of a request from outside: the system that keeps the file, or a datum
nested more deeply than a reader or a writer can follow. -/
inductive Obstacle where
  /-- The file cannot be read. -/
  | reading (fault : Fault)
  /-- The file cannot be opened for writing. -/
  | opening (fault : Fault)
  /-- Writing is stopped when the file has so many bytes of the new document. -/
  | writing (bytes : Nat) (fault : Fault)

/-- An archive, with the name of its file. -/
structure Archive where
  path : String
  place : Place := .absent

/-- When something is saved: for people, and in seconds. -/
structure Moment where
  stamp : String
  seconds : Double

namespace Archive

/-- The outcome of a request: the answer, what has become of the archive, and the journal. -/
structure Outcome (α : Type) where
  answer : Except Fault α
  archive : Archive
  journal : Journal := []

/-- An entry of the archive's journal. -/
def entry (severity : Severity) (message : String) : Entry := ⟨"common.storage", severity, message⟩

/-- Reads the database. -/
def read (a : Archive) (obstacle : Option Obstacle := none) : Except Fault Database × Journal :=
  match a.place with
  | .absent | .blocked => (.ok .empty, [])
  | .directory => (.error (.unavailable s!"Could not read {a.path}: it is a directory"), [])
  | .file content =>
    match obstacle with
    | some (.reading fault) => (.error fault, [])
    | _ =>
      match content.read with
      | .ok d => (.ok (.ofDatum d), [])
      | .error .malformed => (.ok .empty, [entry .warning s!"Ignoring corrupt data file {a.path}"])
      | .error .tooManyDigits => (.error (.datum .tooManyDigits), [])
      | .error .undecodable => (.error (.datum .notDecodable), [])

/-- What a file that was opened for a document holds when writing it has ended, and the fault with
which it ended if that was not the end of the document. -/
def draft (d : Datum) (obstacle : Option Obstacle) : FileContent × Option Fault :=
  match d.toDocument, obstacle with
  | .ok document, some (.writing bytes fault) =>
    (.ofBytes (document.toUTF8.extract 0 bytes), some fault)
  | .ok _, _ => (.document d, none)
  | .error torn, some (.writing bytes fault) =>
    if bytes < torn.written.utf8ByteSize then
      (.ofBytes (torn.written.toUTF8.extract 0 bytes), some fault)
    else (.text torn.written, some (.datum torn.cause))
  | .error torn, _ => (.text torn.written, some (.datum torn.cause))

/-- Writes the database. -/
def write (a : Archive) (db : Database) (obstacle : Option Obstacle := none) :
    Except Fault Unit × Archive :=
  match a.place with
  | .blocked => (.error (.unavailable s!"Could not write {a.path}: it has no directory"), a)
  | .directory => (.error (.unavailable s!"Could not write {a.path}: it is a directory"), a)
  | .absent | .file _ =>
    match obstacle with
    | some (.opening fault) => (.error fault, a)
    | _ =>
      match draft (.record db.fields) obstacle with
      | (content, none) => (.ok (), { a with place := .file content })
      | (content, some fault) => (.error fault, { a with place := .file content })

/-- Answers a request from the database. -/
def ask {α : Type} (a : Archive) (f : Database → Except Fault α)
    (obstacle : Option Obstacle := none) : Outcome α :=
  match a.read obstacle with
  | (.ok db, journal) => ⟨f db, a, journal⟩
  | (.error fault, journal) => ⟨.error fault, a, journal⟩

/-- Writes a changed database, and enters the change in the journal. -/
def commit {α : Type} (a : Archive) (db : Database) (answer : α) (before changed : Journal)
    (obstacle : Option Obstacle := none) : Outcome α :=
  match a.write db obstacle with
  | (.ok (), a) => ⟨.ok answer, a, before ++ changed⟩
  | (.error fault, a) => ⟨.error fault, a, before⟩

/-- A datum in a sentence. -/
def spell (d : Datum) : String := d.plain.toOption.getD ""

/-- Saves a record, under a fresh identifier if it has none, and answers its identifier. -/
def save (a : Archive) (supply : Supply) (now : Moment) (d : Datum)
    (obstacle : Option Obstacle := none) : Outcome Datum × Supply :=
  match a.read obstacle with
  | (.error fault, journal) => (⟨.error fault, a, journal⟩, supply)
  | (.ok db, journal) =>
    match d.toFields with
    | .error fault => (⟨.error fault, a, journal⟩, supply)
    | .ok fields =>
      let own := Fields.get fields "id"
      let (id, supply) :=
        if own.isTruthy then (own, supply)
        else
          let (fresh, supply) := supply.draw 12
          (.text fresh, supply)
      let record := Fields.set (Fields.set (Fields.set fields "id" id) "timestamp"
        (.text now.stamp)) "epoch" (.float now.seconds)
      match db.save record id with
      | .error fault => (⟨.error fault, a, journal⟩, supply)
      | .ok db =>
        let name := (Fields.get? record "name").getD (.text "")
        (a.commit db id journal
          [entry .info s!"Saved equation {spell id} ({spell name})"] obstacle, supply)

/-- The record with an identifier. -/
def load (a : Archive) (id : Datum) (obstacle : Option Obstacle := none) :
    Outcome (Option Datum) :=
  a.ask (fun db => db.find? id) obstacle

/-- Removes the record with an identifier, and answers whether there was one. -/
def remove (a : Archive) (id : Datum) (obstacle : Option Obstacle := none) : Outcome Bool :=
  match a.read obstacle with
  | (.error fault, journal) => ⟨.error fault, a, journal⟩
  | (.ok db, journal) =>
    match db.remove id with
    | .error fault => ⟨.error fault, a, journal⟩
    | .ok (false, _) => ⟨.ok false, a, journal⟩
    | .ok (true, db) =>
      a.commit db true journal [entry .info s!"Deleted equation {spell id}"] obstacle

/-- What a listing shows, newest first. -/
def list (a : Archive) (obstacle : Option Obstacle := none) : Outcome (List Datum) :=
  a.ask Database.summaries obstacle

/-- The constraints saved with a record. -/
def constraintsOf (a : Archive) (id : Datum) (obstacle : Option Obstacle := none) :
    Outcome (List Datum) :=
  a.ask (fun db => db.constraintsOf id) obstacle

/-- The settings in force. -/
def settings (a : Archive) (obstacle : Option Obstacle := none) : Outcome Fields :=
  a.ask Database.currentSettings obstacle

/-- Saves settings of any kind. -/
def saveSettings (a : Archive) (settings : Datum) (obstacle : Option Obstacle := none) :
    Outcome Unit :=
  match a.read obstacle with
  | (.error fault, journal) => ⟨.error fault, a, journal⟩
  | (.ok db, journal) => a.commit (db.set "settings" settings) () journal [] obstacle

/-- Forgets everything. -/
def clear (a : Archive) (obstacle : Option Obstacle := none) : Outcome Unit :=
  a.commit .empty () [] [] obstacle

end Archive

end EquationStudio
