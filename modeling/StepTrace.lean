import StepTrace.Main
import StepTrace.Pane.Output
import StepTrace.Pane.Program
import StepTrace.Pane.Sketch
import StepTrace.Pane.Status
import StepTrace.Proofs.Lockstep.Protocol
import StepTrace.View.Layout
import StepTrace.Proofs.Lockstep.Item
import StepTrace.Proofs.Lockstep.Sorting
import StepTrace.Proofs.Lockstep.Method
import StepTrace.Proofs.Lockstep.Builtin
import StepTrace.Proofs.Lockstep.Expression
import StepTrace.Proofs.Lockstep.Statement
import StepTrace.Proofs.Fuel
import StepTrace.Proofs.Outcome
import StepTrace.Proofs.Plain
import StepTrace.Proofs.Twins
import StepTrace.Proofs.Continuations
import StepTrace.Proofs.Transparency
import StepTrace.Proofs.History
import StepTrace.Proofs.Soundness.World
import StepTrace.Proofs.Soundness.Logic
import StepTrace.Proofs.Soundness.Hosting
import StepTrace.Proofs.Soundness.Protocol
import StepTrace.Proofs.Soundness.Item
import StepTrace.Proofs.Soundness.Sorting
import StepTrace.Proofs.Soundness.Method
import StepTrace.Proofs.Soundness.Builtin
import StepTrace.Proofs.Soundness.Expression
import StepTrace.Proofs.Soundness.Statement
import StepTrace.Proofs.TracedRun
import StepTrace.Proofs.Finality
import StepTrace.Proofs.Accesses
import StepTrace.Proofs.References
import StepTrace.Proofs.HeapIntegrity
import StepTrace.Proofs.Indexes
import StepTrace.Proofs.Copies
import StepTrace.Proofs.Structures.Chain
import StepTrace.Proofs.Structures.Tree
import StepTrace.Proofs.Structures.Graph
import StepTrace.Proofs.Documents.RoundTrip
import StepTrace.Proofs.Pictures
import StepTrace.Proofs.Documents.Nesting
import StepTrace.Proofs.Documents.Transport
import StepTrace.Proofs.Documents.Finite
import StepTrace.Proofs.Documents.Reading
import StepTrace.Proofs.Frames
import StepTrace.Proofs.Scopes
import StepTrace.Proofs.Literals.Basic
import StepTrace.Proofs.Literals.Hashing
import StepTrace.Proofs.Globals
import StepTrace.Proofs.Balance
import StepTrace.Proofs.Passage
import StepTrace.Proofs.Literals.Printing
import StepTrace.Proofs.Literals.Scanning
import StepTrace.Proofs.Literals.Reading
import StepTrace.Proofs.Literals.Parsing
import StepTrace.Proofs.Literals.Assignment
import StepTrace.Proofs.Literals.Evaluation
import StepTrace.Proofs.Literals.RoundTrip
import StepTrace.Proofs.Concatenation.Program
import StepTrace.Proofs.Mappings
import StepTrace.Proofs.EqualKeys.Values
import StepTrace.Proofs.Runaway
import StepTrace.Proofs.Precedence.Reading
import StepTrace.Proofs.Boundaries
import StepTrace.Proofs.Membership
import StepTrace.Proofs.Truth
import StepTrace.Proofs.Displays
import StepTrace.Proofs.Runs
import StepTrace.Proofs.Sorting.Merging
import StepTrace.Proofs.Sorting.Stable
import StepTrace.Proofs.Sorting.InPlace
import StepTrace.Proofs.Sorting.Queues
import StepTrace.Proofs.Slices.Positions
import StepTrace.Proofs.Slices.Items
import StepTrace.Proofs.Slices.Operations
import StepTrace.Proofs.Slices.Ranges
import StepTrace.Proofs.Slices.Words
import StepTrace.Proofs.Sorting.Sifting
import StepTrace.Proofs.Sorting.Priority
import StepTrace.Proofs.Sorting.Extremes
import StepTrace.Proofs.Ordering.Lexicographic
import StepTrace.Proofs.Ordering.Agreement
import StepTrace.Proofs.Tokens.Places
import StepTrace.Proofs.Tokens.WellLaid
import StepTrace.Proofs.Tokens.BlankLines
import StepTrace.Proofs.Parameters
import StepTrace.Proofs.Tracking.Marking
import StepTrace.Proofs.FormattedStrings
import StepTrace.Proofs.Renderings
import StepTrace.Proofs.VariableOrder
import StepTrace.Proofs.Highlights
import StepTrace.Proofs.Structures.Adjacency
import StepTrace.Proofs.Structures.Shapes
import StepTrace.Proofs.Integers.Exact
import StepTrace.Proofs.Integers.Formatting
import StepTrace.Proofs.Integers.Powers
import StepTrace.Proofs.Integers.Reading
import StepTrace.Proofs.Integers.ModularPowers
import StepTrace.Proofs.Dispatch.HandOvers
import StepTrace.Proofs.Nesting.Programs
import StepTrace.Proofs.Loops.Headers
import StepTrace.Proofs.Integers.Rounding
import StepTrace.Proofs.Integers.Roots
import StepTrace.Proofs.Panes.Scrolling
