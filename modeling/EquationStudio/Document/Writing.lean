import EquationStudio.Datum.Display

/-!
# Writing documents

A datum is written as a JSON document: on one line (`Datum.toLine`), or indented by two spaces a
level (`Datum.toDocument`). Non-ASCII characters stand as they are. An indented document is written
piece by piece, and an integer too long to be written stops it, or a text that no file can hold: the
answer's error has what was written until then.
-/

namespace EquationStudio

/-- A character inside a document's text. -/
def documentChar (c : Char) : List Char :=
  if c = '"' then ['\\', '"']
  else if c = '\\' then ['\\', '\\']
  else if c = '\n' then ['\\', 'n']
  else if c = '\r' then ['\\', 'r']
  else if c = '\t' then ['\\', 't']
  else if c = '\x0c' then ['\\', 'f']
  else if c = '\x08' then ['\\', 'b']
  else if c.toNat < 0x20 then '\\' :: 'u' :: hexDigits c.toNat 4
  else [c]

/-- A text in a document. -/
def documentText (s : String) : String :=
  String.ofList ('"' :: s.toList.flatMap documentChar ++ ['"'])

/-- A double in a document. -/
def documentDouble : Double → String
  | .nan => "NaN"
  | .infinite negative => if negative then "-Infinity" else "Infinity"
  | .finite x => x.write

namespace Datum

mutual

/-- The document on one line, appended to a text. -/
def appendLine (before : String) : Datum → String
  | null => before ++ "null"
  | bool b => before ++ (if b then "true" else "false")
  | int n => before ++ toString n
  | float x => before ++ documentDouble x
  | text s => before ++ documentText s
  | list [] => before ++ "[]"
  | list (x :: xs) => appendItems (appendLine (before ++ "[") x) xs ++ "]"
  | record [] => before ++ "\x7b\x7d"
  | record ((key, x) :: fs) =>
    appendFields (appendLine (before ++ "\x7b" ++ documentText key ++ ":") x) fs ++ "\x7d"

/-- The members after the first. -/
def appendItems (before : String) : List Datum → String
  | [] => before
  | x :: xs => appendItems (appendLine (before ++ ",") x) xs

/-- The fields after the first. -/
def appendFields (before : String) : List (String × Datum) → String
  | [] => before
  | (key, x) :: fs => appendFields (appendLine (before ++ "," ++ documentText key ++ ":") x) fs

end

/-- The document on one line. -/
def toLine (d : Datum) : String := appendLine "" d

end Datum

/-! ## Indented documents -/

/-- A document that was not written to its end. -/
structure Torn where
  /-- What could not be written. -/
  cause : DatumFault
  /-- What was written until then. -/
  written : String

/-- The start of a line at the given level. -/
def newLine (level : Nat) : String := "\n" ++ String.ofList (List.replicate (2 * level) ' ')

namespace Datum

mutual

/-- The indented document after the text `before` and the separator `mark`. A scalar is written
together with the separator, so one that cannot be written leaves the separator out too. -/
def draft (level : Nat) (before mark : String) : Datum → Except Torn String
  | null => .ok (before ++ mark ++ "null")
  | bool b => .ok (before ++ mark ++ (if b then "true" else "false"))
  | int n =>
    match integerText n with
    | .ok digits => .ok (before ++ mark ++ digits)
    | .error _ => .error ⟨.tooManyDigits, before⟩
  | float x => .ok (before ++ mark ++ documentDouble x)
  | text s =>
    if isEncodable s then .ok (before ++ mark ++ documentText s) else .error ⟨.notEncodable, before⟩
  | list [] => .ok (before ++ mark ++ "[]")
  | list (x :: xs) => do
    let before ← draft (level + 1) (before ++ mark) ("[" ++ newLine (level + 1)) x
    let before ← draftItems (level + 1) before xs
    return before ++ newLine level ++ "]"
  | record [] => .ok (before ++ mark ++ "\x7b\x7d")
  | record (f :: fs) => do
    let before ← draftFields (level + 1) (before ++ mark ++ "\x7b" ++ newLine (level + 1))
      "" (f :: fs)
    return before ++ newLine level ++ "\x7d"

/-- The members after the first. -/
def draftItems (level : Nat) (before : String) : List Datum → Except Torn String
  | [] => .ok before
  | x :: xs => do draftItems level (← draft level before ("," ++ newLine level) x) xs

/-- The fields; `mark` stands before the first of them. -/
def draftFields (level : Nat) (before mark : String) :
    List (String × Datum) → Except Torn String
  | [] => .ok before
  | (key, x) :: fs =>
    if isEncodable key then do
      let before ← draft level (before ++ mark ++ documentText key ++ ": ") "" x
      draftFields level before ("," ++ newLine level) fs
    else .error ⟨.notEncodable, before ++ mark⟩

end

/-- The indented document, or what was written of it. -/
def toDocument (d : Datum) : Except Torn String := draft 0 "" "" d

end Datum

end EquationStudio
