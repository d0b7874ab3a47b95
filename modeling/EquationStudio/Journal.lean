/-!
# The journal

Noteworthy events are entered in a journal under the channel of the part that reports them.
-/

namespace EquationStudio

/-- How weighty a journal entry is. -/
inductive Severity where
  | info
  | warning
  | error
  deriving DecidableEq

/-- The name of a severity. -/
def Severity.name : Severity → String
  | info => "INFO"
  | warning => "WARNING"
  | error => "ERROR"

/-- An entry of the journal. -/
structure Entry where
  channel : String
  severity : Severity
  message : String
  deriving DecidableEq

/-- Entries in the order in which they were made. -/
abbrev Journal := List Entry

end EquationStudio
