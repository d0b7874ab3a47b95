import EquationStudio.Datum.Display
import EquationStudio.Journal

/-!
# Notices to the user

A notice is a message of a certain level. Where notices go is decided by a notifier, which may lose
them, keep them or enter them in the journal; one that fails leaves an entry in the journal and
nothing else, so whoever sends a notice is never affected by what becomes of it.
-/

namespace EquationStudio

/-- How a notice is meant. -/
inductive Level where
  | success
  | error
  | info
  | warning
  deriving DecidableEq

namespace Level

/-- The name of a level. -/
def name : Level → String
  | success => "success"
  | error => "error"
  | info => "info"
  | warning => "warning"

/-- All levels. -/
def all : List Level := [success, error, info, warning]

theorem mem_all (l : Level) : l ∈ all := by cases l <;> decide

/-- The level that a datum names. -/
def ofDatum (d : Datum) : Except Fault Level :=
  let found := match d with
    | .text s => all.find? (·.name == s)
    | _ => none
  match found with
  | some l => .ok l
  | none => do .error (.datum (.notMember (← d.display) "NotificationLevel"))

/-- How weighty the journal entry for a notice of this level is. -/
def severity : Level → Severity
  | success | info => .info
  | warning => .warning
  | error => .error

end Level

/-- A message to the user. -/
structure Notice where
  message : String
  level : Level
  deriving DecidableEq

/-- The journal entry for a notice. -/
def Notice.entry (channel : String) (n : Notice) : Entry :=
  ⟨channel, n.level.severity, s!"[{n.level.name}] {n.message}"⟩

/-- Where notices go. -/
inductive Notifier where
  | silent
  /-- Notices are kept. -/
  | recording
  /-- Notices are entered in the journal under a channel. -/
  | logging (channel : String)
  /-- Every notice fails to arrive. -/
  | failing

/-- What the delivery of notices leaves behind. -/
structure Delivery where
  kept : List Notice := []
  journal : Journal := []

/-- One delivery after another. -/
def Delivery.append (a b : Delivery) : Delivery := ⟨a.kept ++ b.kept, a.journal ++ b.journal⟩

/-- The journal entry for a notice that did not arrive. -/
def undelivered (message : String) : Entry :=
  ⟨"common.notify", .error, "Notification sink failed for message " ++ quoted message⟩

/-- Delivers a message whose level may turn out to be none. -/
def Notifier.deliver (n : Notifier) (message : String) (level : Except Fault Level) : Delivery :=
  match n, level with
  | silent, _ => {}
  | recording, .ok l => { kept := [⟨message, l⟩] }
  | logging channel, .ok l => { journal := [Notice.entry channel ⟨message, l⟩] }
  | _, _ => { journal := [undelivered message] }

/-- What a part of the studio makes known: entries for the journal and notices to the user. -/
inductive Event where
  | entry (e : Entry)
  | notice (n : Notice)

/-- What the events leave behind under a notifier. -/
def Notifier.handle (n : Notifier) (events : List Event) : Delivery :=
  events.foldl (fun d e => d.append (match e with
    | .entry e => { journal := [e] }
    | .notice m => n.deliver m.message (.ok m.level))) {}

end EquationStudio
