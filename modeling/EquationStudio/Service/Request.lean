import EquationStudio.Datum.Basic
import EquationStudio.Numeric.Reading

/-!
# Requests to the service

A request names a resource by its path and says by its method what to do with it. Requests that make
sense are calls; the others are answered by themselves (`Request.call`). What the body of a request
has to hold is checked before anything else is done.
-/

namespace EquationStudio

/-- What the service answers. -/
inductive Response where
  | ok (body : Datum)
  /-- The request is refused for what it asks. -/
  | bad (detail : String)
  /-- What the request asks for is not there. -/
  | missing (detail : String)
  /-- The resource has no such method. -/
  | notAllowed
  /-- The body does not hold what it has to. -/
  | unreadable
  /-- The request could not be handled. -/
  | failure

namespace Response

/-- The number by which the kind of answer is known. -/
def status : Response → Nat
  | ok _ => 200
  | bad _ => 400
  | missing _ => 404
  | notAllowed => 405
  | unreadable => 422
  | failure => 500

/-- A body that explains a refusal. -/
def explained (detail : String) : Datum := .record [("detail", .text detail)]

/-- The body, if the answer has one that is fixed. -/
def body? : Response → Option Datum
  | ok body => some body
  | bad detail | missing detail => some (explained detail)
  | notAllowed => some (explained "Method Not Allowed")
  | unreadable | failure => none

end Response

/-- A request as it comes in. -/
structure Request where
  method : String
  path : String
  /-- The parameters that follow the path. -/
  params : List (String × String) := []
  body : Option Datum := none

/-- The parts of a diagram sent along with a request. -/
structure Submission where
  nodes : Datum
  connections : Datum
  constraints : Datum
  sink : Datum

/-- A request that makes sense. -/
inductive Call where
  | lessons (difficulty topic : Option String)
  | lesson (id : String)
  | start (lesson : String)
  | view (session : String)
  | advance (session : String)
  | hint (session : String)
  | reset (session : String)
  | tick (session : String) (ms : Nat)
  | close (session : String)
  | synthesize (submitted : Submission)

namespace Request

/-- The parts of a text between its slashes. -/
def partsOf (cs : List Char) : List (List Char) :=
  cs.foldr (fun c parts => if c = '/' then [] :: parts else parts.modifyHead (c :: ·)) [[]]

/-- The parts of the path between its slashes. Slashes at the ends do not count. -/
def segments (r : Request) : List String :=
  let parts := (partsOf r.path.toList).dropWhile List.isEmpty
  (parts.reverse.dropWhile List.isEmpty).reverse.map String.ofList

/-- A parameter that is given and not empty. -/
def param? (r : Request) (name : String) : Option String :=
  ((r.params.find? (·.1 == name)).map Prod.snd).filter (· != "")

/-- The fields of the body, which must be an object. -/
def fields (r : Request) : Except Response Fields :=
  match r.body with
  | some (.record fields) => .ok fields
  | _ => .error .unreadable

/-- White space around a whole number in a text. -/
def isMargin (c : Char) : Bool :=
  c.toNat ∈ [0x9, 0xa, 0xb, 0xc, 0xd, 0x20, 0x85, 0xa0, 0x1680, 0x2028, 0x2029, 0x202f, 0x205f,
    0x3000] || (0x2000 ≤ c.toNat && c.toNat ≤ 0x200a)

/-- Digits with single underscores between them. -/
def ungrouped? (cs : List Char) : Option (List Char) :=
  let rec go (afterDigit : Bool) : List Char → Option (List Char)
    | [] => if afterDigit then some [] else none
    | c :: rest =>
      if c.isDigit then (go true rest).map (c :: ·)
      else if c = '_' ∧ afterDigit then go false rest
      else none
  go false cs

/-- The whole number from zero on that a text spells: a sign, digits, and possibly a fraction of
zeros. -/
def spelledNatural? (s : String) : Option Nat := do
  if s.utf8ByteSize > 4300 then none
  let cs := s.toList.dropWhile isMargin
  let cs := (cs.reverse.dropWhile isMargin).reverse
  let (negative, cs) := match cs with
    | '+' :: rest => (false, rest)
    | '-' :: rest => (true, rest)
    | rest => (false, rest)
  let whole := cs.takeWhile (· != '.')
  let fraction := (cs.dropWhile (· != '.')).drop 1
  if fraction.any (· != '0') then none
  let n := digitsToNat (← ungrouped? whole)
  if negative && n != 0 then none else some n

/-- The whole number from zero on that a datum is taken for. -/
def natural? : Datum → Option Nat
  | .bool b => some b.toNat
  | .int n => if 0 ≤ n then some n.toNat else none
  | .float (.finite x) =>
    x.toInt?.bind fun n => if 0 ≤ n ∧ n < Nat.pow 2 63 then some n.toNat else none
  | .text s => spelledNatural? s
  | _ => none

/-- A list of objects, empty if it is not given. -/
def objects (fields : Fields) (key : String) : Except Response Datum :=
  match Fields.get? fields key with
  | none => .ok (.list [])
  | some (.list items) =>
    if items.all (fun d => match d with | .record _ => true | _ => false) then .ok (.list items)
    else .error .unreadable
  | some _ => .error .unreadable

/-- The diagram in the body. -/
def submission (r : Request) : Except Response Submission := do
  let fields ← r.fields
  let nodes ← objects fields "nodes"
  let connections ← objects fields "connections"
  let constraints ← objects fields "constraints"
  match Fields.get fields "sink_id" with
  | .null => return ⟨nodes, connections, constraints, .null⟩
  | .text s => return ⟨nodes, connections, constraints, .text s⟩
  | _ => .error .unreadable

/-- The identifier of a lesson in the body. -/
def lessonId (r : Request) : Except Response String := do
  match Fields.get (← r.fields) "equation_id" with
  | .text s => return s
  | _ => .error .unreadable

/-- The stretch of time in the body. -/
def elapsed (r : Request) : Except Response Nat := do
  match natural? (Fields.get (← r.fields) "elapsed_ms") with
  | some ms => return ms
  | none => .error .unreadable

/-- The call that a request is. -/
def call (r : Request) : Except Response Call :=
  let only (method : String) (made : Except Response Call) : Except Response Call :=
    if r.method = method then made else .error .notAllowed
  match r.segments with
  | ["api", "equations"] =>
    only "GET" (.ok (.lessons (r.param? "difficulty") (r.param? "topic")))
  | ["api", "equations", id] => only "GET" (.ok (.lesson id))
  | ["api", "sessions", "", _] => .error (.missing "Not Found")
  | ["api", "sessions"] => only "POST" (do return .start (← r.lessonId))
  | ["api", "sessions", id] =>
    match r.method with
    | "GET" => .ok (.view id)
    | "DELETE" => .ok (.close id)
    | _ => .error .notAllowed
  | ["api", "sessions", id, "advance"] => only "POST" (.ok (.advance id))
  | ["api", "sessions", id, "hint"] => only "POST" (.ok (.hint id))
  | ["api", "sessions", id, "reset"] => only "POST" (.ok (.reset id))
  | ["api", "sessions", id, "tick"] => only "POST" (do return .tick id (← r.elapsed))
  | ["api", "graph", "synthesize"] => only "POST" (do return .synthesize (← r.submission))
  | _ => .error (.missing "Not Found")

end Request

end EquationStudio
