/-!
# Faults

Every reason for which the editor or the tutor refuses something, grouped by what is at fault, and
the one place that puts a reason into words (`Fault.message`). Values that a message quotes are held
in the form in which they are shown.
-/

namespace EquationStudio

/-- A value from outside has not the form that is needed where it is used. -/
inductive DatumFault where
  /-- A mapping lacks a key. -/
  | missingKey (key : String)
  /-- A value of this kind is no number and cannot be made one. -/
  | notNumeric (kind : String)
  /-- A text that does not spell a number. -/
  | notNumeral (shown : String)
  /-- A value of this kind has no members to go through. -/
  | notIterable (kind : String)
  /-- A value of this kind cannot be taken apart into coordinates. -/
  | notUnpackable (kind : String)
  | tooFewCoordinates (found : Nat)
  | tooManyCoordinates
  /-- A value of this kind has no fields. -/
  | noFields (kind : String)
  /-- A value of this kind cannot be a key of a table. -/
  | notKey (kind : String)
  /-- A value of this kind lacks a method. -/
  | noMethod (kind method : String)
  /-- Values of these kinds have no order. -/
  | notOrdered (relation left right : String)
  /-- A value of this kind is no index. -/
  | notIndex (kind : String)
  /-- Text is needed as member number `index`, where a value of this kind stands. -/
  | notText (index : Nat) (kind : String)
  /-- A value of this kind is no pair of a key and a value. -/
  | notMapping (kind : String)
  /-- A pair of a key and a value is needed where there are `parts` parts. -/
  | notPair (parts : Nat)
  /-- A value of this kind has no size. -/
  | noSize (kind : String)
  /-- A list has no member at an index. -/
  | outOfRange
  /-- An operator met an operand that is missing. -/
  | missingOperand
  /-- A value is not among those of a closed set. -/
  | notMember (shown set : String)
  /-- An integer has too many digits to be written. -/
  | tooManyDigits
  /-- A text holds half a pair of code units, so it cannot be written to a file. -/
  | notEncodable
  /-- A file holds bytes that spell no text. -/
  | notDecodable
  /-- A datum is nested more deeply than can be followed. -/
  | tooDeep
  /-- An integer is larger than every double. -/
  | tooLargeForDouble
  | undefinedToInteger
  | infinityToInteger
  /-- What a library reports in its own words, as the fault of a value or of something else. -/
  | foreign (ofValue : Bool) (words : String)
  deriving DecidableEq

/-- An edit or an authored record that the schema does not allow. -/
inductive SchemaFault where
  | notNumber
  | variableMissing
  | variableTooLong (limit : Nat)
  | variableMalformed
  | nodeIdTaken (id : String)
  | nodeUnknown (id : String)
  | carriesNoValue (kind : String)
  | carriesNoSymbol (kind : String)
  | takesNoConstraints (kind : String)
  | labelEmpty
  | notOutput (id : String)
  | notConstraint
  | constraintNotMapping
  | constraintKindUnknown (shown : String)
  | constraintField (cause : DatumFault)
  | constraintIdTaken (id : String)
  | rangeBounds
  | rangeOrder
  | comparisonBound (kind : String)
  | domainMissing
  | signMissing
  | parityMissing
  | divisorMissing
  | domainUnknown (shown : String)
  | equationNotMapping
  | textMissing (place key : String)
  | actionUnknown (place shown : String)
  | difficultyUnknown (place shown : String)
  | stepValue (place : String)
  deriving DecidableEq

/-- A connection that the ports do not allow. -/
inductive WiringFault where
  | sourceUnknown (port : String)
  | targetUnknown (port : String)
  | notOutputPort (port : String)
  | notInputPort (port : String)
  | sameNode
  | occupied (port : String)
  | connectionIdTaken (id : String)
  | noOutput (node : String)
  | noInput (node index : String)
  deriving DecidableEq

/-- A list of steps that cannot be played. -/
inductive SequenceFault where
  | stepNotMapping (place kind : String)
  | stepNumber (place : String)
  | noSteps (place : String)
  | notSteps (place : String)
  | notIncreasing (place : String) (previous next : String)
  | notEquation
  deriving DecidableEq

/-- A request that is refused for the values it is asked with. -/
inductive RefusalFault where
  | incomplete
  | powerTooLarge (digits : String)
  | dividesByZero
  | noRealValue (shown : String)
  | resultTooLarge
  | unbound (names : List String)
  | intervalNotPositive
  | negativeTime
  deriving DecidableEq

/-- Why a request was not carried out. -/
inductive Fault where
  | datum (cause : DatumFault)
  | schema (cause : SchemaFault)
  | unknownKind (shown : String)
  | wiring (cause : WiringFault)
  /-- Synthesis met `node` again on the way along `path`. -/
  | cycle (node : String) (path : List String)
  | sequence (cause : SequenceFault)
  | violation (target : String) (rules : List String)
  | conflict (target : String) (kinds : List String)
  | refusal (cause : RefusalFault)
  /-- The archive's file cannot be read or written. -/
  | unavailable (reason : String)
  deriving DecidableEq

/-- Whether a fault is a refusal by the schema: of an edit, a record, a kind, a list of steps or a
value. -/
def Fault.isSchema : Fault → Bool
  | .schema _ | .unknownKind _ | .sequence _ | .violation .. | .conflict .. => true
  | .datum _ | .wiring _ | .cycle .. | .refusal _ | .unavailable _ => false

/-- The words for a value of the wrong form. -/
def DatumFault.message : DatumFault → String
  | .missingKey key => key
  | .notNumeric kind => s!"float() argument must be a string or a real number, not '{kind}'"
  | .notNumeral shown => s!"could not convert string to float: {shown}"
  | .notIterable kind => s!"'{kind}' object is not iterable"
  | .notUnpackable kind => s!"cannot unpack non-iterable {kind} object"
  | .tooFewCoordinates found => s!"not enough values to unpack (expected 2, got {found})"
  | .tooManyCoordinates => "too many values to unpack (expected 2)"
  | .noFields kind =>
    if kind = "str" then "string indices must be integers, not 'str'"
    else if kind = "list" then "list indices must be integers or slices, not str"
    else s!"'{kind}' object is not subscriptable"
  | .notKey kind => s!"unhashable type: '{kind}'"
  | .noMethod kind method => s!"'{kind}' object has no attribute '{method}'"
  | .notOrdered relation left right =>
    s!"'{relation}' not supported between instances of '{left}' and '{right}'"
  | .notIndex kind => s!"tuple indices must be integers or slices, not {kind}"
  | .notText index kind => s!"sequence item {index}: expected str instance, {kind} found"
  | .notMapping kind => s!"a key and a value are needed, not '{kind}'"
  | .notPair parts => s!"a key and a value are needed, not {parts} parts"
  | .noSize kind => s!"object of type '{kind}' has no len()"
  | .outOfRange => "list index out of range"
  | .missingOperand => "an operand is missing"
  | .notMember shown set => s!"{shown} is not a valid {set}"
  | .tooManyDigits =>
    "Exceeds the limit (4300 digits) for integer string conversion; " ++
      "use sys.set_int_max_str_digits() to increase the limit"
  | .notEncodable => "'utf-8' codec can't encode a surrogate"
  | .notDecodable => "'utf-8' codec can't decode the file"
  | .tooDeep => "maximum recursion depth exceeded"
  | .tooLargeForDouble => "int too large to convert to float"
  | .undefinedToInteger => "cannot convert float NaN to integer"
  | .infinityToInteger => "cannot convert float infinity to integer"
  | .foreign _ words => words

/-- The words for a refused edit or record. -/
def SchemaFault.message : SchemaFault → String
  | .notNumber => "Please enter a valid number"
  | .variableMissing => "Variable name is required"
  | .variableTooLong limit => s!"Variable name is too long (max {limit} characters)"
  | .variableMalformed =>
    "Variable names should start with a letter and contain only " ++
      "letters, numbers, or Greek letters"
  | .nodeIdTaken id => s!"Node id '{id}' is already in use"
  | .nodeUnknown id => s!"Node '{id}' does not exist"
  | .carriesNoValue kind => s!"Only number nodes carry a value (got {kind})"
  | .carriesNoSymbol kind => s!"Only variable nodes carry a symbol (got {kind})"
  | .takesNoConstraints kind =>
    s!"Only number and variable nodes take constraints (got {kind})"
  | .labelEmpty => "Label cannot be empty"
  | .notOutput id => s!"'{id}' is not an output node"
  | .notConstraint => "Expected a Constraint"
  | .constraintNotMapping => "Constraint record must be a mapping"
  | .constraintKindUnknown shown => s!"Unknown constraint type: {shown}"
  | .constraintField cause => "Invalid constraint record: " ++ cause.message
  | .constraintIdTaken id => s!"Constraint id '{id}' is already attached"
  | .rangeBounds => "A range needs numeric minimum and maximum"
  | .rangeOrder => "Range minimum is above its maximum"
  | .comparisonBound kind => s!"'{kind}' needs a numeric value"
  | .domainMissing => "A domain constraint needs a known domain"
  | .signMissing => "A sign constraint needs positive, negative or non_zero"
  | .parityMissing => "A parity constraint needs even or odd"
  | .divisorMissing => "A divisibility constraint needs a non-zero divisor"
  | .domainUnknown shown => s!"Unknown domain: {shown}"
  | .equationNotMapping => "Equation record must be a mapping"
  | .textMissing place key => s!"{place}: '{key}' must be a non-empty string"
  | .actionUnknown place shown => s!"{place}: unknown action {shown}"
  | .difficultyUnknown place shown => s!"{place}: unknown difficulty {shown}"
  | .stepValue place => s!"{place}: 'value' must be a number or a string"

/-- The words for a refused connection. -/
def WiringFault.message : WiringFault → String
  | .sourceUnknown port => s!"Source port '{port}' not found"
  | .targetUnknown port => s!"Target port '{port}' not found"
  | .notOutputPort port => s!"Port '{port}' is not an output port"
  | .notInputPort port => s!"Port '{port}' is not an input port"
  | .sameNode => "Cannot connect node to itself"
  | .occupied port => s!"Input port '{port}' already has a connection"
  | .connectionIdTaken id => s!"Connection id '{id}' is already in use"
  | .noOutput node => s!"Node '{node}' has no output port"
  | .noInput node index => s!"Node '{node}' has no input #{index}"

/-- The words for steps that cannot be played. -/
def SequenceFault.message : SequenceFault → String
  | .stepNotMapping place kind => s!"{place}: expected a mapping, got {kind}"
  | .stepNumber place => s!"{place}: 'step' must be a positive integer"
  | .noSteps place => s!"{place}: no solving steps found"
  | .notSteps place => s!"{place}: steps must be Step records"
  | .notIncreasing place previous next =>
    s!"{place}: step numbers must be strictly increasing ({previous} then {next})"
  | .notEquation => "Invalid equation data - no solving steps found"

/-- The words for a refused request. -/
def RefusalFault.message : RefusalFault → String
  | .incomplete => "The graph is incomplete; connect every input to the output first."
  | .powerTooLarge digits => s!"Power is too large to evaluate (about {digits} digits)."
  | .dividesByZero => "Expression divides by zero."
  | .noRealValue shown => s!"Expression has no real value ({shown})."
  | .resultTooLarge => "Result is too large to represent."
  | .unbound names => "No value given for: " ++ String.intercalate ", " names
  | .intervalNotPositive => "interval_ms must be positive"
  | .negativeTime => "elapsed_ms cannot be negative"

/-- A fault in words. -/
def Fault.message : Fault → String
  | .datum cause => cause.message
  | .schema cause => cause.message
  | .unknownKind shown => s!"Unknown node type: {shown}"
  | .wiring cause => cause.message
  | .cycle node path =>
    let chain := if path.isEmpty then node else String.intercalate " -> " (path ++ [node])
    s!"Graph contains a cycle closed at node '{node}' ({chain})"
  | .sequence cause => cause.message
  | .violation target rules =>
    s!"Value for '{target}' violates: " ++ String.intercalate ", " rules
  | .conflict target kinds =>
    s!"Constraint conflicts on '{target}': " ++ String.intercalate ", " kinds
  | .refusal cause => cause.message
  | .unavailable reason => reason

end EquationStudio
