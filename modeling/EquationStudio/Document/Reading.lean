import EquationStudio.Datum.Basic
import EquationStudio.Numeric.Reading
import EquationStudio.Text.LoneUnit

/-!
# Reading documents

A JSON document is read into a datum. Of the fields of one object with the same key the last value
counts, in the place of the first. Besides the grammar's numbers `NaN`, `Infinity` and `-Infinity`
are read. A reader may limit the digits of an integer.
-/

namespace EquationStudio

/-- Why a text was not read. -/
inductive DocumentFault where
  /-- The text is no document. -/
  | malformed
  /-- An integer has more digits than the reader takes. -/
  | tooManyDigits
  /-- There is no text, but bytes that spell none. -/
  | undecodable
  deriving DecidableEq

namespace Document

/-- White space between tokens. -/
def isSpace (c : Char) : Bool := c = ' ' || c = '\t' || c = '\n' || c = '\r'

/-- The value of a hexadecimal digit. -/
def hexValue? (c : Char) : Option Nat :=
  if c.isDigit then some (c.toNat - '0'.toNat)
  else if 'a' ≤ c ∧ c ≤ 'f' then some (c.toNat - 'a'.toNat + 10)
  else if 'A' ≤ c ∧ c ≤ 'F' then some (c.toNat - 'A'.toNat + 10)
  else none

/-- Reads four hexadecimal digits. -/
def readUnit : List Char → Option (Nat × List Char)
  | a :: b :: c :: d :: rest => do
    return (((← hexValue? a) * 16 + (← hexValue? b)) * 256 +
      (← hexValue? c) * 16 + (← hexValue? d), rest)
  | _ => none

/-- Reads what follows the escape of a code unit: the second half of a pair if there is one. -/
def readEscape (cs : List Char) : Option (Char × List Char) := do
  let (unit, rest) ← readUnit cs
  if 0xd800 ≤ unit ∧ unit < 0xdc00 then
    match rest with
    | '\\' :: 'u' :: rest' =>
      match readUnit rest' with
      | some (low, rest'') =>
        if 0xdc00 ≤ low ∧ low < 0xe000 then
          return (Char.ofNat (0x10000 + (unit - 0xd800) * 0x400 + (low - 0xdc00)), rest'')
        else return (loneUnit unit, rest)
      | none => return (loneUnit unit, rest)
    | _ => return (loneUnit unit, rest)
  else if 0xdc00 ≤ unit ∧ unit < 0xe000 then return (loneUnit unit, rest)
  else return (Char.ofNat unit, rest)

/-- Reads a text after its opening quote; `read` holds the characters so far, last first. -/
def readText : Nat → List Char → List Char → Except DocumentFault (String × List Char)
  | 0, _, _ => .error .malformed
  | _ + 1, _, [] => .error .malformed
  | fuel + 1, read, c :: rest =>
    if c = '"' then .ok (String.ofList read.reverse, rest)
    else if c = '\\' then
      match rest with
      | 'u' :: rest' =>
        match readEscape rest' with
        | some (d, rest'') => readText fuel (d :: read) rest''
        | none => .error .malformed
      | '"' :: rest' => readText fuel ('"' :: read) rest'
      | '\\' :: rest' => readText fuel ('\\' :: read) rest'
      | '/' :: rest' => readText fuel ('/' :: read) rest'
      | 'b' :: rest' => readText fuel ('\x08' :: read) rest'
      | 'f' :: rest' => readText fuel ('\x0c' :: read) rest'
      | 'n' :: rest' => readText fuel ('\n' :: read) rest'
      | 'r' :: rest' => readText fuel ('\r' :: read) rest'
      | 't' :: rest' => readText fuel ('\t' :: read) rest'
      | _ => .error .malformed
    else if c.toNat < 0x20 then .error .malformed
    else readText fuel (c :: read) rest

/-- The fraction with which a number continues, if it does. -/
def fractionPart : List Char → List Char × List Char
  | '.' :: rest =>
    let digits := rest.takeWhile Char.isDigit
    if digits.isEmpty then ([], '.' :: rest) else ('.' :: digits, rest.dropWhile Char.isDigit)
  | cs => ([], cs)

/-- The exponent with which a number continues, if it does. -/
def exponentPart : List Char → List Char × List Char
  | [] => ([], [])
  | c :: rest =>
    if c = 'e' ∨ c = 'E' then
      let (sign, body) := match rest with
        | '-' :: body => (['-'], body)
        | '+' :: body => (['+'], body)
        | body => ([], body)
      let digits := body.takeWhile Char.isDigit
      if digits.isEmpty then ([], c :: rest)
      else ('e' :: sign ++ digits, body.dropWhile Char.isDigit)
    else ([], c :: rest)

/-- Reads a number. An integer has neither fraction nor exponent and no zero in front. -/
def readNumber (limit : Option Nat) (negative : Bool) (cs : List Char) :
    Except DocumentFault (Datum × List Char) :=
  let whole := match cs with
    | '0' :: _ => ['0']
    | _ => cs.takeWhile Char.isDigit
  if whole.isEmpty then .error .malformed
  else
    let (fraction, rest) := fractionPart (cs.drop whole.length)
    let (exponent, rest) := exponentPart rest
    if fraction.isEmpty && exponent.isEmpty then
      if limit.any (· < whole.length) then .error .tooManyDigits
      else
        let n : Int := digitsToNat whole
        .ok (.int (if negative then -n else n), rest)
    else
      match readNumeral (whole ++ fraction ++ exponent) with
      | some n => .ok (.float (n.toDouble negative), rest)
      | none => .error .malformed

/-- The text after a word that the text begins with. -/
def afterWord? (word : String) (cs : List Char) : Option (List Char) :=
  if word.toList.isPrefixOf cs then some (cs.drop word.length) else none

/-- Reads a number or a word. -/
def readScalar (limit : Option Nat) (cs : List Char) :
    Except DocumentFault (Datum × List Char) :=
  let words : List (String × Datum) := [("null", .null), ("true", .bool true),
    ("false", .bool false), ("NaN", .float .nan), ("Infinity", .float (.infinite false)),
    ("-Infinity", .float (.infinite true))]
  match words.findSome? fun w => (afterWord? w.1 cs).map fun rest => (w.2, rest) with
  | some found => .ok found
  | none =>
    match cs with
    | '-' :: rest => readNumber limit true rest
    | _ => readNumber limit false cs

mutual

/-- Reads a value after the white space in front of it. -/
def readValue (limit : Option Nat) : Nat → List Char → Except DocumentFault (Datum × List Char)
  | 0, _ => .error .malformed
  | fuel + 1, cs =>
    match cs with
    | '"' :: rest => do
      let (s, rest) ← readText (rest.length + 1) [] rest
      return (.text s, rest)
    | '[' :: rest =>
      match rest.dropWhile isSpace with
      | ']' :: rest => .ok (.list [], rest)
      | rest => do
        let (items, rest) ← readItems limit fuel [] rest
        return (.list items, rest)
    | '\x7b' :: rest =>
      match rest.dropWhile isSpace with
      | '\x7d' :: rest => .ok (.record [], rest)
      | rest => do
        let (fields, rest) ← readFields limit fuel [] rest
        return (.record (Fields.ofPairs fields), rest)
    | _ => readScalar limit cs

/-- Reads the members of a list up to its end; `read` holds those so far, last first. -/
def readItems (limit : Option Nat) :
    Nat → List Datum → List Char → Except DocumentFault (List Datum × List Char)
  | 0, _, _ => .error .malformed
  | fuel + 1, read, cs => do
    let (x, rest) ← readValue limit fuel cs
    match rest.dropWhile isSpace with
    | ',' :: rest => readItems limit fuel (x :: read) (rest.dropWhile isSpace)
    | ']' :: rest => return ((x :: read).reverse, rest)
    | _ => .error .malformed

/-- Reads the fields of an object up to its end; `read` holds those so far, last first. -/
def readFields (limit : Option Nat) :
    Nat → Fields → List Char → Except DocumentFault (Fields × List Char)
  | 0, _, _ => .error .malformed
  | fuel + 1, read, cs =>
    match cs with
    | '"' :: rest => do
      let (key, rest) ← readText (rest.length + 1) [] rest
      match rest.dropWhile isSpace with
      | ':' :: rest =>
        let (x, rest) ← readValue limit fuel (rest.dropWhile isSpace)
        match rest.dropWhile isSpace with
        | ',' :: rest => readFields limit fuel ((key, x) :: read) (rest.dropWhile isSpace)
        | '\x7d' :: rest => return (((key, x) :: read).reverse, rest)
        | _ => .error .malformed
      | _ => .error .malformed
    | _ => .error .malformed

end

end Document

/-- Reads the whole of a text as a document. -/
def Datum.ofDocument (limit : Option Nat) (s : String) : Except DocumentFault Datum := do
  let cs := s.toList
  let (d, rest) ← Document.readValue limit (cs.length + 1) (cs.dropWhile Document.isSpace)
  if (rest.dropWhile Document.isSpace).isEmpty then return d else .error .malformed

end EquationStudio
