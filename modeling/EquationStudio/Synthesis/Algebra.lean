import EquationStudio.Algebra.Computed
import EquationStudio.Synthesis.Text

/-!
# Expressions as algebra

The walk that reads an expression off a diagram also builds it in a computer algebra, in which
numbers and the values bound to variables are the rationals that their literals spell. A power of
numbers is built only if it has not too many digits. A complete expression without free symbols has
a value, if it is finite and real: the double that the algebra converts it to.

The algebra is a parameter throughout. Where none is named, it is that of `Expr.algebra`.
-/

namespace EquationStudio

/-- The most digits that a power of numbers may have. -/
abbrev powerDigits : Nat := 10000

/-- A double of at least a thousand with three digits, in exponent form. -/
def threeDigits : Double → String
  | .finite x =>
    let num := codeSteps x.code
    let den := Nat.pow 2 stepBits
    let size := Numeral.decimalSize num den
    let k := size - 3
    let digits := roundQuotient (num * Nat.pow 10 (-k).toNat) (den * Nat.pow 10 k.toNat)
    let n := (Numeral.mk digits k).trim 4
    n.write ⟨0, 0, 2⟩
  | x => x.write

namespace SymbolicAlgebra

variable (A : SymbolicAlgebra)

/-- Values for variables. -/
abbrev Bindings := List (String × A.Form)

/-- What takes the place of an expression: nothing for a node with a loose input. -/
abbrev Operand := Option A.Form

/-- How many digits a power has, if base and exponent are numbers and the digits are too many. The
base must not be zero. -/
def tooManyDigits? (b e : A.Form) : Option Double :=
  if A.isNumber b && A.isNumber e && !A.isZero b then
    let digits := ((A.powerDigits? b e).getD (.infinite false)).magnitude
    if digits.exceeds powerDigits then some digits else none
  else none

/-- A power within the bound. -/
def boundedPower (b e : A.Form) : Except Fault A.Form :=
  match A.tooManyDigits? b e with
  | some digits => .error (.refusal (.powerTooLarge (threeDigits digits)))
  | none => .ok (A.pow b e)

/-- A power whose base or exponent may be missing. A missing operand whose size would have to be
known is asked for what it has not. -/
def powerOfOperands : A.Operand → A.Operand → Except Fault A.Operand
  | some b, some e => return some (← A.boundedPower b e)
  | some b, none =>
    if A.isNumber b then .error (.datum (.noMethod "NoneType" "is_Number"))
    else .error (.datum .missingOperand)
  | none, _ => .error (.datum (.noMethod "NoneType" "is_Number"))

/-- An operation on operands. -/
def combine (op : Operator) (left right : A.Operand) : Except Fault A.Operand :=
  let joined (f : A.Form → A.Form → A.Form) : Except Fault A.Operand :=
    match left, right with
    | some a, some b => .ok (some (f a b))
    | _, _ => .error (.datum .missingOperand)
  match op with
  | .add => joined A.add
  | .subtract => joined A.sub
  | .multiply => joined A.mul
  | .divide => joined A.div
  | .power => A.powerOfOperands left right

/-- Forms of a computer algebra, with values for some variables. -/
def emitter (bindings : A.Bindings) : Emitter A.Operand where
  number v := some (A.rational v.literalValue)
  symbol name := some (((bindings.find? (·.1 == name)).map Prod.snd).getD (A.symbol name))
  binary := A.combine
  degraded _ := none

/-- The value of a form, if it has one. -/
def value (e : A.Form) : Except Fault Double :=
  match (A.names e).mergeSort (· ≤ ·) with
  | [] =>
    if A.isSingular e || !A.isFinite e then .error (.refusal .dividesByZero)
    else if !A.isReal e then do
      let shown ← (A.text e).mapError .datum
      .error (.refusal (.noRealValue shown))
    else
      match A.toDouble? e with
      | some x => .ok x
      | none => .error (.refusal .resultTooLarge)
  | names => .error (.refusal (.unbound names))

/-- The values of a mapping as bindings. Null, lists and records are converted, but they stand for
no value. -/
def readBindings : Fields → Except Fault A.Bindings
  | [] => .ok []
  | (name, d) :: rest => do
    match d with
    | .null | .list _ | .record _ => do
      (A.convert d).mapError .datum
      readBindings rest
    | d => do
      let v ← Number.ofDatum d
      return (name, A.rational v.literalValue) :: (← readBindings rest)

end SymbolicAlgebra

namespace Diagram

/-- The form of the expression behind a sink, if it is complete. -/
def algebraic (g : Diagram) (A : SymbolicAlgebra) (bindings : Except Fault A.Bindings)
    (sink : Datum) : Except Fault A.Operand := do
  match ← g.resolveSink sink with
  | none => return none
  | some n =>
    let walked ← g.walk (A.emitter (← bindings)) n
    match walked.value with
    | some (some e) => return if walked.degraded.isEmpty then some e else none
    | _ => return none

/-- The form of the expression behind a sink; it must be complete. -/
def completeAlgebraic (g : Diagram) (A : SymbolicAlgebra) (bindings : Except Fault A.Bindings)
    (sink : Datum) : Except Fault A.Form := do
  match ← g.algebraic A bindings sink with
  | some e => return e
  | none => .error (.refusal .incomplete)

/-- The text of the form of the expression behind a sink, if it is complete. -/
def algebraicText (g : Diagram) (sink : Datum) (A : SymbolicAlgebra := Expr.algebra) :
    Except Fault (Option String) := do
  match ← g.algebraic A (.ok []) sink with
  | some e => return some (← (A.text e).mapError .datum)
  | none => return none

/-! ## Values -/

/-- Checks the values of a mapping against the constraints of the variables that it binds. -/
def checkBindings (g : Diagram) (values : Fields) : List Node → Except Fault Unit
  | [] => .ok ()
  | n :: rest => do
    match n.content with
    | .symbol name =>
      match Fields.get? values name with
      | some d => g.constraints.check n.id.datum (← Number.ofDatum d).toDatum
      | none => pure ()
    | _ => pure ()
    g.checkBindings values rest

/-- Whether a name is among something that is no mapping. -/
def isNamed (name : String) : Datum → Except Fault Bool
  | .list items => .ok (items.any (·.equal (.text name)))
  | .text s => .ok ((s.splitOn name).length != 1)
  | d => .error (.datum (.notIterable d.kindName))

/-- Looks for the variables of a diagram in something that is no mapping, and fails if one is
there. -/
def checkNoBindings (g : Diagram) (d : Datum) : Except Fault Unit :=
  (g.nodesOfKind .symbol).forM fun n => do
    match n.content with
    | .symbol name => if ← isNamed name d then .error (.datum (.noFields d.kindName))
    | _ => pure ()

/-- The bindings of a mapping, once its values have been checked against the diagram's constraints.
They are read later, and may still turn out not to be numbers. -/
def checkedBindings (g : Diagram) (A : SymbolicAlgebra) (bindings : Datum) :
    Except Fault (Except Fault A.Bindings) :=
  match bindings with
  | .record values => do
    g.checkBindings values (g.nodesOfKind .symbol)
    return A.readBindings values
  | d =>
    if d.isTruthy then do
      g.checkNoBindings d
      return .error (.datum (.noMethod d.kindName "items"))
    else .ok (.ok [])

/-- The value of the expression behind a sink, with values for its variables. -/
def evaluate (g : Diagram) (bindings sink : Datum) (A : SymbolicAlgebra := Expr.algebra) :
    Except Fault Double := do
  A.value (← g.completeAlgebraic A (← g.checkedBindings A bindings) sink)

/-- The simplest form of the expression behind a sink, with a caret for powers. It must be complete
and divide by nothing that is zero. -/
def simplified (g : Diagram) (sink : Datum) (A : SymbolicAlgebra := Expr.algebra) :
    Except Fault String := do
  let e ← (A.simplify (← g.completeAlgebraic A (.ok []) sink)).mapError .datum
  if A.isSingular e then .error (.refusal .dividesByZero)
  else return (← (A.text e).mapError .datum).replace "**" "^"

/-- The journal of an evaluation: the sink is looked for only once the bindings are checked. -/
def evaluationJournal (g : Diagram) (bindings sink : Datum)
    (A : SymbolicAlgebra := Expr.algebra) : Journal :=
  match g.checkedBindings A bindings with
  | .ok _ => g.sinkJournal sink
  | .error _ => []

end Diagram

end EquationStudio
