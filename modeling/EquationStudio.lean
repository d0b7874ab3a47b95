import EquationStudio.Algebra.Bound
import EquationStudio.Algebra.Computed
import EquationStudio.Algebra.Enclosure
import EquationStudio.Algebra.Expr
import EquationStudio.Algebra.Fraction
import EquationStudio.Algebra.Measure
import EquationStudio.Algebra.Order
import EquationStudio.Algebra.Polynomial
import EquationStudio.Algebra.Printing
import EquationStudio.Algebra.Product
import EquationStudio.Algebra.Radical
import EquationStudio.Algebra.Simplify
import EquationStudio.Algebra.Sum
import EquationStudio.Archive.Basic
import EquationStudio.Archive.Database
import EquationStudio.Console
import EquationStudio.Constraint.Arithmetic
import EquationStudio.Constraint.Basic
import EquationStudio.Constraint.Conflict
import EquationStudio.Constraint.Record
import EquationStudio.Constraint.Registry
import EquationStudio.Constraint.Wording
import EquationStudio.Datum.Access
import EquationStudio.Datum.Basic
import EquationStudio.Datum.Display
import EquationStudio.Datum.Key
import EquationStudio.Datum.Mapping
import EquationStudio.Diagram.Basic
import EquationStudio.Diagram.Edit
import EquationStudio.Diagram.Kind
import EquationStudio.Diagram.Node
import EquationStudio.Diagram.Record
import EquationStudio.Document.Reading
import EquationStudio.Document.Writing
import EquationStudio.Fault
import EquationStudio.Journal
import EquationStudio.Lesson.Action
import EquationStudio.Lesson.Advice
import EquationStudio.Lesson.Basic
import EquationStudio.Lesson.Catalog
import EquationStudio.Lesson.Step
import EquationStudio.Main
import EquationStudio.Notice
import EquationStudio.Number
import EquationStudio.Numeric.Double
import EquationStudio.Numeric.Numeral
import EquationStudio.Numeric.Percent
import EquationStudio.Numeric.Reading
import EquationStudio.Schedule.Agenda
import EquationStudio.Schedule.Routine
import EquationStudio.Schedule.TimerPool
import EquationStudio.Schedule.Widget
import EquationStudio.Service.Basic
import EquationStudio.Service.Request
import EquationStudio.Service.Session
import EquationStudio.Supply
import EquationStudio.Synthesis.Algebra
import EquationStudio.Synthesis.Report
import EquationStudio.Synthesis.Symbolic
import EquationStudio.Synthesis.Text
import EquationStudio.Synthesis.Walk
import EquationStudio.Table
import EquationStudio.Text.Blank
import EquationStudio.Text.Digits
import EquationStudio.Text.LoneUnit
import EquationStudio.Text.Printable
import EquationStudio.Text.Quoted
import EquationStudio.Tutor.Attempt
import EquationStudio.Tutor.Engine
import EquationStudio.Tutor.Play
import EquationStudio.Tutor.Report
import EquationStudio.Workspace
import EquationStudio.Proofs.Algebra.Accuracy
import EquationStudio.Proofs.Algebra.Amount
import EquationStudio.Proofs.Algebra.Bound
import EquationStudio.Proofs.Algebra.Coefficient
import EquationStudio.Proofs.Algebra.Digits
import EquationStudio.Proofs.Algebra.Exponential
import EquationStudio.Proofs.Algebra.Interval
import EquationStudio.Proofs.Algebra.Lawful
import EquationStudio.Proofs.Algebra.Logarithm
import EquationStudio.Proofs.Algebra.Printing
import EquationStudio.Proofs.Algebra.Real
import EquationStudio.Proofs.Algebra.Regular
import EquationStudio.Proofs.Algebra.RegularProduct
import EquationStudio.Proofs.Algebra.Symbols
import EquationStudio.Proofs.Archive.Database
import EquationStudio.Proofs.Archive.Listing
import EquationStudio.Proofs.Archive.Recency
import EquationStudio.Proofs.Archive.Refused
import EquationStudio.Proofs.Archive.Run
import EquationStudio.Proofs.Archive.Stored
import EquationStudio.Proofs.Archive.Working
import EquationStudio.Proofs.Archive.Writable
import EquationStudio.Proofs.Basic
import EquationStudio.Proofs.Console
import EquationStudio.Proofs.Constraint.Arithmetic
import EquationStudio.Proofs.Constraint.Conflict
import EquationStudio.Proofs.Constraint.Divisible
import EquationStudio.Proofs.Constraint.Fibonacci
import EquationStudio.Proofs.Constraint.Overflow
import EquationStudio.Proofs.Constraint.Permutation
import EquationStudio.Proofs.Constraint.Prime
import EquationStudio.Proofs.Constraint.Range
import EquationStudio.Proofs.Constraint.Record
import EquationStudio.Proofs.Constraint.Registry
import EquationStudio.Proofs.Constraint.Replay
import EquationStudio.Proofs.Constraint.RoundTrip
import EquationStudio.Proofs.Constraint.Run
import EquationStudio.Proofs.Datum.Equality
import EquationStudio.Proofs.Datum.Identity
import EquationStudio.Proofs.Diagram.Anchored
import EquationStudio.Proofs.Diagram.Atomic
import EquationStudio.Proofs.Diagram.Consistent
import EquationStudio.Proofs.Diagram.Damaged
import EquationStudio.Proofs.Diagram.Governed
import EquationStudio.Proofs.Diagram.Inexhaustible
import EquationStudio.Proofs.Diagram.Keyed
import EquationStudio.Proofs.Diagram.Numbered
import EquationStudio.Proofs.Diagram.Omission
import EquationStudio.Proofs.Diagram.Overflow
import EquationStudio.Proofs.Diagram.Owned
import EquationStudio.Proofs.Diagram.Ports
import EquationStudio.Proofs.Diagram.Rebuild
import EquationStudio.Proofs.Diagram.Record
import EquationStudio.Proofs.Diagram.Relabelled
import EquationStudio.Proofs.Diagram.Removal
import EquationStudio.Proofs.Diagram.RoundTrip
import EquationStudio.Proofs.Diagram.Routed
import EquationStudio.Proofs.Diagram.Script
import EquationStudio.Proofs.Diagram.Step
import EquationStudio.Proofs.Diagram.Taken
import EquationStudio.Proofs.Diagram.Trial
import EquationStudio.Proofs.Diagram.WellFormed
import EquationStudio.Proofs.Document.RoundTrip
import EquationStudio.Proofs.Document.Scalar
import EquationStudio.Proofs.Fields
import EquationStudio.Proofs.Lesson.Reading
import EquationStudio.Proofs.Lesson.RoundTrip
import EquationStudio.Proofs.Number
import EquationStudio.Proofs.Numeric.Code
import EquationStudio.Proofs.Numeric.Finite
import EquationStudio.Proofs.Numeric.Literal
import EquationStudio.Proofs.Numeric.Nearest
import EquationStudio.Proofs.Numeric.Significant
import EquationStudio.Proofs.Schedule.Interrupted
import EquationStudio.Proofs.Schedule.Pool
import EquationStudio.Proofs.Schedule.Routine
import EquationStudio.Proofs.Schedule.Widget
import EquationStudio.Proofs.Service.Exchange
import EquationStudio.Proofs.Service.Explained
import EquationStudio.Proofs.Service.Isolation
import EquationStudio.Proofs.Service.Sessions
import EquationStudio.Proofs.Service.Synthesize
import EquationStudio.Proofs.Service.Tutor
import EquationStudio.Proofs.Synthesis.Accepted
import EquationStudio.Proofs.Synthesis.Amount
import EquationStudio.Proofs.Synthesis.Bounded
import EquationStudio.Proofs.Synthesis.Circuit
import EquationStudio.Proofs.Synthesis.Division
import EquationStudio.Proofs.Synthesis.Formula
import EquationStudio.Proofs.Synthesis.Found
import EquationStudio.Proofs.Synthesis.Frame
import EquationStudio.Proofs.Synthesis.Grammar
import EquationStudio.Proofs.Synthesis.Incomplete
import EquationStudio.Proofs.Synthesis.Laws
import EquationStudio.Proofs.Synthesis.Mirror
import EquationStudio.Proofs.Synthesis.Occupied
import EquationStudio.Proofs.Synthesis.Outcome
import EquationStudio.Proofs.Synthesis.Power
import EquationStudio.Proofs.Synthesis.Readable
import EquationStudio.Proofs.Synthesis.Report
import EquationStudio.Proofs.Synthesis.Rounded
import EquationStudio.Proofs.Synthesis.Rounds
import EquationStudio.Proofs.Synthesis.Simplified
import EquationStudio.Proofs.Synthesis.Unbound
import EquationStudio.Proofs.Synthesis.Value
import EquationStudio.Proofs.Synthesis.Walk
import EquationStudio.Proofs.Table
import EquationStudio.Proofs.Text.Encodable
import EquationStudio.Proofs.Tutor.Clock
import EquationStudio.Proofs.Tutor.History
import EquationStudio.Proofs.Tutor.Phase
import EquationStudio.Proofs.Tutor.Refused
import EquationStudio.Proofs.Tutor.Step
import EquationStudio.Proofs.Workspace.Open
import EquationStudio.Proofs.Workspace.Outage
import EquationStudio.Proofs.Workspace.Save
