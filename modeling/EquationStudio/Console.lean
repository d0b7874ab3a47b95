import EquationStudio.Lesson.Catalog
import EquationStudio.Numeric.Percent
import EquationStudio.Text.Blank
import EquationStudio.Tutor.Play
import EquationStudio.Tutor.Report

/-!
# The console

At the console a student works through one lesson of the catalog. Each line typed is a command; an
empty line, like any other that is no command, does the next step. The session ends with the last
step, with the command to quit, or with the last line (`Console.play`), and a line on the progress
is printed then.
-/

namespace EquationStudio

/-- What a typed line asks for. -/
inductive Command where
  | next
  | hint
  | restart
  | quit
  deriving DecidableEq

/-- The command that a typed line is. -/
def Command.ofLine (line : String) : Command :=
  match lowerLatin (trimBlank line) with
  | "q" => .quit
  | "h" => .hint
  | "r" => .restart
  | _ => .next

/-- A lesson under way at the console. -/
structure Console where
  lesson : Lesson
  tutor : Tutor

/-- What a session at the console leaves behind. -/
structure Transcript where
  /-- All that was printed. -/
  text : String
  /-- The statistics at the end, if there was a lesson. -/
  stats : Option Datum
  /-- How many lines were asked for. -/
  prompts : Nat
  journal : Journal

namespace Console

/-- The lesson for those who do not choose any. -/
def usualLesson : String := "lin_005"

/-- What asks for a line. -/
def prompt : String := "\n[Enter] next  [h] hint  [r] reset  [q] quit > "

/-- A text with spaces after it up to the given width. -/
def padded (width : Nat) (s : String) : String :=
  s ++ String.ofList (List.replicate (width - s.length) ' ')

/-- A lesson in the list of those that there are. -/
def offer (l : Lesson) : String :=
  s!"  {padded 9 l.id} {padded 13 l.difficulty.name} {l.name}: {l.equation}\n"

/-- What is printed for a lesson that there is not. -/
def unknownText (id : String) : String :=
  s!"Unknown equation \"{id}\". Available:\n" ++ String.join (Catalog.lessons.map offer)

/-- The step to be done next. -/
def stepText (t : Tutor) : String :=
  match t.currentStep? with
  | some s => s!"\nStep {s.number}: {s.equation}\n  {s.explanation}\n"
  | none => ""

/-- A hint. -/
def hintText (h : Hint) : String := s!"Hint: {h.tip}\n  {h.nudge}\n"

/-- The progress made. -/
def progressText (a : Attempt) : String :=
  let share := a.progress.percent
  s!"\nProgress {share}  ({a.index}/{a.total} steps, {a.hints} hints)\n"

/-- Takes up a lesson. -/
def start (lesson : Lesson) : String × Console :=
  let tutor := Tutor.load {} lesson
  (s!"{lesson.name}: {lesson.equation}\n" ++ stepText tutor, { lesson, tutor })

/-- Does what is asked for. It is printed what comes of it, and said whether the session goes
on. -/
def obey (c : Console) : Command → String × Console × Bool
  | .quit => ("", c, false)
  | .hint =>
    let (hint, tutor) := c.tutor.requestHint
    let text := match hint with
      | .ok (some h) => hintText h
      | _ => ""
    (text, { c with tutor }, true)
  | .restart =>
    let tutor := c.tutor.reset.load c.lesson
    (stepText tutor, { c with tutor }, true)
  | .next =>
    let tutor := c.tutor.advance
    if tutor.phase = .completed then ("\nSequence complete!\n", { c with tutor }, false)
    else (stepText tutor, { c with tutor }, true)

/-- Plays the lines typed, and asks for one more after the last of them. The answer is what was
printed, how many lines were asked for, and how the session ended. -/
def play (c : Console) : List String → String × Nat × Console
  | [] => ("", 1, c)
  | line :: rest =>
    let (text, c, goesOn) := c.obey (.ofLine line)
    if goesOn then
      let (more, prompts, c) := play c rest
      (text ++ more, prompts + 1, c)
    else (text, 1, c)

/-- What is printed at the end. -/
def farewell (c : Console) : String :=
  match c.tutor.attempt? with
  | some a => progressText a
  | none => ""

/-- What the tutor made known, as entries in the journal, and the session after it was told. -/
def tell (c : Console) : Journal × Console :=
  let (events, tutor) := c.tutor.collect
  (((Notifier.logging "tutor").handle events).journal, { c with tutor })

/-- The session with its tutor dismissed. -/
def close (c : Console) : Console := { c with tutor := c.tutor.destroy }

/-- A whole session with the lesson of the given identifier, if there is one. -/
def run (id : String) (lines : List String) : Transcript :=
  match Catalog.find? id with
  | none => ⟨unknownText id, none, 0, []⟩
  | some lesson =>
    let (opening, c) := start lesson
    let (text, prompts, c) := c.play lines
    ⟨opening ++ text ++ c.farewell, c.tutor.stats?, prompts, c.close.tell.1⟩

end Console

/-! ## How much of the journal is shown -/

/-- The least weight that is shown, for the levels that have a name. -/
def levelWeights : List (String × Nat) :=
  [("CRITICAL", 50), ("FATAL", 50), ("ERROR", 40), ("WARNING", 30), ("WARN", 30), ("INFO", 20),
    ("DEBUG", 10), ("NOTSET", 0)]

/-- A small letter made capital: those of the Latin alphabet, the dotless i and the long s. -/
def capital (c : Char) : Char :=
  if c = 'ı' then 'I' else if c = 'ſ' then 'S' else c.toUpper

/-- The least weight of an entry that is shown. A level that has no name counts as the usual one. -/
def leastWeight : Datum → Nat
  | .text s => ((levelWeights.find? (·.1 == s.map capital)).map Prod.snd).getD 20
  | _ => 20

/-- The weight of an entry. -/
def Severity.weight : Severity → Nat
  | info => 20
  | warning => 30
  | error => 40

/-- What is shown of a journal. -/
def Journal.shown (least : Nat) (journal : Journal) : Journal :=
  journal.filter fun e => least ≤ e.severity.weight

/-- The lesson that is chosen by the arguments of the command line. -/
def chosenLesson (arguments : List String) : String := arguments.headD Console.usualLesson

end EquationStudio
