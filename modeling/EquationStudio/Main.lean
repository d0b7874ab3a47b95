import EquationStudio.Archive.Basic
import EquationStudio.Console

/-!
# The program

The program plays a lesson at the console: the one named by the first argument, or the usual one.
Lines are read from standard input and the journal is written to standard error, as far as the
settings of the archive ask for it.
-/

open EquationStudio

namespace EquationStudio.Program

/-- The archive's file. -/
def archivePath : String := "data/eqbuilder.json"

/-- The archive as it is on disk. -/
def readArchive : IO Archive := do
  try
    let text ← IO.FS.readFile archivePath
    return ⟨archivePath, .file (.text text)⟩
  catch
    | .noFileOrDirectory .. => return ⟨archivePath, .absent⟩
    | _ => return ⟨archivePath, .directory⟩

/-- Writes the entries of a journal that are shown. -/
def report (least : Nat) (journal : Journal) : IO Unit := do
  for e in Journal.shown least journal do
    IO.eprintln s!"{e.severity.name} | {e.channel} | {e.message}"

/-- Prints a text at once. -/
def say (text : String) : IO Unit := do
  IO.print text
  (← IO.getStdout).flush

/-- Plays the lines of standard input. -/
partial def converse (least : Nat) (c : Console) : IO Console := do
  let (journal, c) := c.tell
  report least journal
  say Console.prompt
  let line ← (← IO.getStdin).getLine
  if line.isEmpty then return c
  let (text, c, goesOn) := c.obey (.ofLine line)
  say text
  if goesOn then converse least c else return c

/-- Plays the chosen lesson. -/
def play (id : String) (least : Nat) : IO Unit := do
  match Catalog.find? id with
  | none => say (Console.unknownText id)
  | some lesson =>
    let (opening, c) := Console.start lesson
    say opening
    let c ← converse least c
    say c.farewell
    report least c.close.tell.1

end EquationStudio.Program

/-- Reads the settings and plays the chosen lesson. -/
def main (arguments : List String) : IO UInt32 := do
  let settings := (← Program.readArchive).settings
  match settings.answer with
  | .error fault =>
    IO.eprintln fault.message
    return 1
  | .ok fields =>
    let least := leastWeight (Fields.get fields "log_level")
    Program.report least settings.journal
    Program.play (chosenLesson arguments) least
    return 0
