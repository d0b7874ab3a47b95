import EquationStudio.Number

/-!
# Constraints on values

A constraint restricts the numbers that a node may hold. Its *terms* are the fields as they were
written down, of any form; its *rule* is what they mean. A constraint exists only if the rule can be
read from its terms (`Rule.ofTerms`), and the type keeps that fact.
-/

namespace EquationStudio

/-- A set of numbers with a name. -/
inductive Domain where
  | real
  | integer
  | natural
  | rational
  | positiveReal
  | negativeReal
  deriving DecidableEq

/-- The sign asked of a number. -/
inductive Sign where
  | positive
  | negative
  | nonZero
  deriving DecidableEq

/-- The parity asked of a number. -/
inductive Parity where
  | even
  | odd
  deriving DecidableEq

/-- How a number is compared with a constant. -/
inductive Relation where
  | notEqual
  | greater
  | less
  | equal
  deriving DecidableEq

/-- The kinds of constraint. -/
inductive ConstraintKind where
  | comparison (relation : Relation)
  | range
  | domain
  | sign
  | prime
  | perfectSquare
  | parity
  | fibonacci
  | divisible
  deriving DecidableEq

/-! ## Names -/

/-- The symbol of a domain. -/
def Domain.name : Domain → String
  | real => "ℝ"
  | integer => "ℤ"
  | natural => "ℕ"
  | rational => "ℚ"
  | positiveReal => "ℝ⁺"
  | negativeReal => "ℝ⁻"

/-- The name of a sign in records. -/
def Sign.name : Sign → String
  | positive => "positive"
  | negative => "negative"
  | nonZero => "non_zero"

/-- The name of a parity. -/
def Parity.name : Parity → String
  | even => "even"
  | odd => "odd"

/-- The name of a kind in records. -/
def ConstraintKind.name : ConstraintKind → String
  | comparison .notEqual => "not_equal"
  | range => "range"
  | domain => "domain"
  | sign => "sign"
  | prime => "prime"
  | perfectSquare => "perfect_square"
  | parity => "even_odd"
  | fibonacci => "fibonacci"
  | divisible => "divisible"
  | comparison .greater => "greater_than"
  | comparison .less => "less_than"
  | comparison .equal => "equal_to"

/-- All domains. -/
def Domain.all : List Domain :=
  [.real, .integer, .natural, .rational, .positiveReal, .negativeReal]

/-- All signs. -/
def Sign.all : List Sign := [.positive, .negative, .nonZero]

/-- Both parities. -/
def Parity.all : List Parity := [.even, .odd]

/-- All kinds of constraint. -/
def ConstraintKind.all : List ConstraintKind :=
  [.comparison .notEqual, .range, .domain, .sign, .prime, .perfectSquare, .parity, .fibonacci,
    .divisible, .comparison .greater, .comparison .less, .comparison .equal]

/-- The member of a closed set that a datum names; `set` is the name of the set. -/
def Datum.memberOf {α : Type} (set : String) (all : List α) (name : α → String) (d : Datum) :
    Except DatumFault α :=
  let found := match d with
    | .text s => all.find? (name · == s)
    | _ => none
  match found with
  | some a => .ok a
  | none =>
    match d.display with
    | .ok shown => .error (.notMember shown set)
    | .error _ => .error .tooManyDigits

/-! ## Terms and rules -/

/-- The fields of a constraint as written down. -/
structure Terms where
  value : Datum := .null
  minimum : Datum := .null
  maximum : Datum := .null
  minInclusive : Bool := true
  maxInclusive : Bool := true
  domain : Option Domain := none
  sign : Option Sign := none
  parity : Option Parity := none
  divisor : Datum := .null

/-- What a constraint asks of a number. -/
inductive Rule where
  | comparison (relation : Relation) (bound : Number)
  | range (minimum maximum : Number) (minInclusive maxInclusive : Bool)
  | domain (domain : Domain)
  | sign (sign : Sign)
  | prime
  | perfectSquare
  | parity (parity : Parity)
  | fibonacci
  | divisible (divisor : Number)

/-- The rule of a range between two data. -/
def Rule.ofRange (terms : Terms) : Except SchemaFault Rule :=
  match Number.ofNumeric? terms.minimum, Number.ofNumeric? terms.maximum with
  | some low, some high =>
    if high.scaled < low.scaled then .error .rangeOrder
    else .ok (.range low high terms.minInclusive terms.maxInclusive)
  | _, _ => .error .rangeBounds

/-- The rule that terms of the given kind state. -/
def Rule.ofTerms (terms : Terms) : ConstraintKind → Except SchemaFault Rule
  | .comparison relation =>
    match Number.ofNumeric? terms.value with
    | some bound => .ok (.comparison relation bound)
    | none => .error (.comparisonBound (ConstraintKind.comparison relation).name)
  | .range => Rule.ofRange terms
  | .domain => match terms.domain with
    | some d => .ok (.domain d)
    | none => .error .domainMissing
  | .sign => match terms.sign with
    | some s => .ok (.sign s)
    | none => .error .signMissing
  | .prime => .ok .prime
  | .perfectSquare => .ok .perfectSquare
  | .parity => match terms.parity with
    | some p => .ok (.parity p)
    | none => .error .parityMissing
  | .fibonacci => .ok .fibonacci
  | .divisible =>
    match Number.ofNumeric? terms.divisor with
    | some divisor =>
      if divisor.scaled = 0 then .error .divisorMissing else .ok (.divisible divisor)
    | none => .error .divisorMissing

/-- A constraint: terms that state a rule, under an identity. An inactive one restricts nothing. -/
structure Constraint where
  id : Datum
  active : Bool
  kind : ConstraintKind
  terms : Terms
  rule : Rule
  stated : Rule.ofTerms terms kind = .ok rule

/-- The constraint of the given terms, if they state a rule. -/
def Constraint.ofTerms (id : Datum) (active : Bool) (kind : ConstraintKind) (terms : Terms) :
    Except Fault Constraint :=
  match h : Rule.ofTerms terms kind with
  | .ok rule => .ok ⟨id, active, kind, terms, rule, h⟩
  | .error cause => .error (.schema cause)

end EquationStudio
